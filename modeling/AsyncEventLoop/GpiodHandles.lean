import AsyncEventLoop.Runs
import AsyncEventLoop.ResourceLedger
import AsyncEventLoop.PinEventSources

/-!
# The libgpiod handles of the Linux pins

`LinuxGpiodDigitalInputPin`, `LinuxGpiodDigitalOutputPin` and `LinuxGpiodPinEventSource`
under both versions of libgpiod. Each operation is given what libgpiod returns, and lists
the handles it has got, used and given back, the last one in front.

A constructor stops at the first call that fails. Whatever it has got until then is given
back: what is in a local variable before it returns, the rest when the object is destroyed
(`handles_balance`).
-/

namespace AsyncEventLoop

open Runs ResourceLedger

inductive GpiodKind where
  | chip
  | line
  | settings
  | lineConfig
  | requestConfig
  | request
  | edgeEventBuffer
  deriving DecidableEq

/-- What libgpiod hands out, by its kind and number. -/
abbrev GpiodHandle := GpiodKind × Nat

abbrev GpiodCalls := List (Entry GpiodHandle)

/-- A call that returns a handle, or null. -/
def acquire (kind : GpiodKind) (handle : Option Nat) : GpiodCalls :=
  handle.toList.map fun n => .acquired (kind, n)

/-- `if (handle) free(handle)`. -/
def giveBack (kind : GpiodKind) (handle : Option Nat) : GpiodCalls :=
  handle.toList.map fun n => .released (kind, n)

def useOf (kind : GpiodKind) (handle : Option Nat) : GpiodCalls :=
  handle.toList.map fun n => .used (kind, n)

/-- `detail::gpiod_chip_path` into an array of `dstSize` characters. -/
def gpiodChipPath (chipName : Option (List UInt8)) (dstSize : Nat) : Option (List UInt8) :=
  match chipName with
  | none | some [] => none
  | some (c :: name) =>
      if dstSize = 0 then none
      else if c = 47 then some ((c :: name).take (dstSize - 1))
      else some (("/dev/".toList.map Char.toUInt8 ++ c :: name).take (dstSize - 1))

/-- What a line is requested as. -/
inductive GpiodEdge where
  | rising
  | falling
  | both
  deriving DecidableEq

/-- `to_gpiod_edge`, and the choice of `request_edge_events_v1`. -/
def toGpiodEdge : PinEventType → GpiodEdge
  | .risingEdge => .rising
  | .fallingEdge => .falling
  | .change | .highLevel | .lowLevel => .both

inductive LineUse where
  | input
  | output (high : Bool)
  | events (edge : GpiodEdge) (debounceUs : Nat)

/-! ## Version 1 -/

/-- What libgpiod v1 returns to a constructor; `requested` is whether the line could be
requested. -/
structure GpiodEnvV1 where
  chip : List UInt8 → Option Nat
  line : Nat → Option Nat
  requested : LineUse → String → Bool

/-- `chip_` and `line_`. -/
structure GpiodLineV1 where
  chip : Option Nat := none
  line : Option Nat := none

namespace GpiodLineV1

def close (s : GpiodLineV1) : GpiodLineV1 × GpiodCalls :=
  ({}, giveBack .chip s.chip ++ (useOf .chip s.chip ++ giveBack .line s.line))

def valid (s : GpiodLineV1) : Bool := s.chip.isSome && s.line.isSome

def cells (s : GpiodLineV1) : GpiodKind → Option Nat
  | .chip => s.chip
  | .line => s.line
  | _ => none

/-- A call on the line, which belongs to its chip. -/
def lineCalls (s : GpiodLineV1) : GpiodCalls :=
  match s.line with
  | none => []
  | some line => useOf .chip s.chip ++ [.used (.line, line)]

/-- The part the constructors share, from `gpiod_chip_open` on. -/
def openLine (chipPath : List UInt8) (lineOffset : Nat) (purpose : LineUse)
    (consumer : String) (env : GpiodEnvV1) : GpiodLineV1 × GpiodCalls :=
  match env.chip chipPath with
  | none => ({}, [])
  | some chip =>
      match env.line lineOffset with
      | none =>
          let closed := close { chip := some chip }
          (closed.1, closed.2 ++ [.used (.chip, chip), .acquired (.chip, chip)])
      | some line =>
          let s : GpiodLineV1 := { chip := some chip, line := some line }
          let calls := s.lineCalls ++
            [.acquired (.line, line), .used (.chip, chip), .acquired (.chip, chip)]
          if env.requested purpose consumer then (s, calls)
          else (s.close.1, s.close.2 ++ calls)

end GpiodLineV1

/-! ## Version 2 -/

/-- What libgpiod v2 returns to a constructor. -/
structure GpiodEnvV2 where
  chip : List UInt8 → Option Nat
  settings : Option Nat
  lineConfig : Option Nat
  requestConfig : Option Nat
  added : Nat → LineUse → Bool
  request : String → Option Nat
  buffer : Nat → Option Nat

/-- `cleanup_setup`, and the same behind `cleanup:`. -/
def cleanupSetup (env : GpiodEnvV2) : GpiodCalls :=
  giveBack .settings env.settings ++
    (giveBack .lineConfig env.lineConfig ++ giveBack .requestConfig env.requestConfig)

/-- From `gpiod_line_settings_new` to the end of the clean-up: the request and the calls. -/
def requestLines (chip lineOffset : Nat) (purpose : LineUse) (consumer : String)
    (env : GpiodEnvV2) : Option Nat × GpiodCalls :=
  let created := acquire .requestConfig env.requestConfig ++
    (acquire .lineConfig env.lineConfig ++ acquire .settings env.settings)
  match env.settings, env.lineConfig, env.requestConfig with
  | some settings, some lineConfig, some requestConfig =>
      let added : GpiodCalls :=
        .used (.settings, settings) :: .used (.lineConfig, lineConfig) ::
          .used (.settings, settings) :: created
      if env.added lineOffset purpose then
        let request := env.request consumer
        (request, cleanupSetup env ++ (acquire .request request ++
          .used (.lineConfig, lineConfig) :: .used (.requestConfig, requestConfig) ::
            .used (.chip, chip) :: .used (.requestConfig, requestConfig) :: added))
      else (none, cleanupSetup env ++ added)
  | _, _, _ => (none, cleanupSetup env ++ created)

/-- `request_one_gpiod_line_v2`. -/
def requestOneGpiodLineV2 (chipName : Option (List UInt8)) (lineOffset : Nat) (purpose : LineUse)
    (consumer : Option String) (env : GpiodEnvV2) : Option Nat × GpiodCalls :=
  match gpiodChipPath chipName 128 with
  | none => (none, [])
  | some chipPath =>
      match env.chip chipPath with
      | none => (none, [])
      | some chip =>
          let requested :=
            requestLines chip lineOffset purpose (consumer.getD "async_event_loop") env
          (requested.1, giveBack .chip (some chip) ++ (requested.2 ++ acquire .chip (some chip)))

/-- `chip_`, `request_` and `buffer_`. -/
structure GpiodSourceV2 where
  chip : Option Nat := none
  request : Option Nat := none
  buffer : Option Nat := none

namespace GpiodSourceV2

def close (s : GpiodSourceV2) : GpiodSourceV2 × GpiodCalls :=
  ({}, giveBack .chip s.chip ++ (giveBack .request s.request ++ giveBack .edgeEventBuffer s.buffer))

def valid (s : GpiodSourceV2) : Bool := s.request.isSome && s.buffer.isSome

def cells (s : GpiodSourceV2) : GpiodKind → Option Nat
  | .chip => s.chip
  | .request => s.request
  | .edgeEventBuffer => s.buffer
  | _ => none

/-- `open`. -/
def openSource (chipPath : List UInt8) (lineOffset : Nat) (type : PinEventType)
    (consumer : Option String) (debounceUs eventBufferCapacity : Nat) (env : GpiodEnvV2) :
    GpiodSourceV2 × GpiodCalls :=
  match env.chip chipPath with
  | none => ({}, [])
  | some chip =>
      let requested := requestLines chip lineOffset (.events (toGpiodEdge type) debounceUs)
        (consumer.getD "pypilot-event-loop") env
      let calls := requested.2 ++ acquire .chip (some chip)
      match requested.1 with
      | none => ({ chip := some chip }, calls)
      | some request =>
          let buffer := env.buffer eventBufferCapacity
          ({ chip := some chip, request := some request, buffer := buffer },
            acquire .edgeEventBuffer buffer ++ calls)

end GpiodSourceV2

/-! ## The objects -/

/-- A pin or an event source, under the version of libgpiod the program is built with. -/
inductive GpiodObject where
  | pinV1 (p : GpiodLineV1)
  | pinV2 (request : Option Nat)
  | sourceV1 (p : GpiodLineV1) (lineOffset sequence : UInt32)
  | sourceV2 (p : GpiodSourceV2)

/-- What libgpiod returns to one `read_event`: whether the edge rises, and when; version 2
adds where, and the number of the event. -/
structure GpiodEdgeEvent where
  rising : Bool
  seconds : UInt64 := 0
  nanoseconds : UInt64
  offset : UInt32 := 0
  seqno : UInt64 := 0

def GpiodEdgeEvent.type (e : GpiodEdgeEvent) : PinEventType :=
  if e.rising then .risingEdge else .fallingEdge

namespace GpiodObject

def cells : GpiodObject → GpiodKind → Option Nat
  | .pinV1 p => p.cells
  | .pinV2 request => Function.update (fun _ => none) .request request
  | .sourceV1 p _ _ => p.cells
  | .sourceV2 p => p.cells

def valid : GpiodObject → Bool
  | .pinV1 p => p.valid
  | .pinV2 request => request.isSome
  | .sourceV1 p _ _ => p.valid
  | .sourceV2 p => p.valid

/-- The constructor of `LinuxGpiodDigitalInputPin`, or of `LinuxGpiodDigitalOutputPin`. -/
def newPinV1 (chipName : Option (List UInt8)) (lineOffset : Nat) (purpose : LineUse)
    (consumer : Option String) (env : GpiodEnvV1) : GpiodObject × GpiodCalls :=
  match gpiodChipPath chipName 128 with
  | none => (.pinV1 {}, [])
  | some chipPath =>
      let opened := GpiodLineV1.openLine chipPath lineOffset purpose
        (consumer.getD "async_event_loop") env
      (.pinV1 opened.1, opened.2)

def newPinV2 (chipName : Option (List UInt8)) (lineOffset : Nat) (purpose : LineUse)
    (consumer : Option String) (env : GpiodEnvV2) : GpiodObject × GpiodCalls :=
  let requested := requestOneGpiodLineV2 chipName lineOffset purpose consumer env
  (.pinV2 requested.1, requested.2)

def newSourceV1 (chipPath : List UInt8) (lineOffset : UInt32) (type : PinEventType)
    (consumer : Option String) (env : GpiodEnvV1) : GpiodObject × GpiodCalls :=
  let opened := GpiodLineV1.openLine chipPath lineOffset.toNat (.events (toGpiodEdge type) 0)
    (consumer.getD "pypilot-event-loop") env
  (.sourceV1 opened.1 lineOffset 0, opened.2)

def newSourceV2 (chipPath : List UInt8) (lineOffset : UInt32) (type : PinEventType)
    (consumer : Option String) (debounceUs eventBufferCapacity : Nat) (env : GpiodEnvV2) :
    GpiodObject × GpiodCalls :=
  let opened := GpiodSourceV2.openSource chipPath lineOffset.toNat type consumer debounceUs
    eventBufferCapacity env
  (.sourceV2 opened.1, opened.2)

/-- The destructor. -/
def destroy : GpiodObject → GpiodCalls
  | .pinV1 p => p.close.2
  | .pinV2 request => giveBack .request request
  | .sourceV1 p _ _ => p.close.2
  | .sourceV2 p => p.close.2

/-- `read` of a pin, `write`, and `native_fd` of a source: one call, if there is a line.
`ok` is what the answer of libgpiod is taken for. -/
def access (ok : Bool) : GpiodObject → Bool × GpiodCalls
  | .pinV1 p => (p.line.isSome && ok, p.lineCalls)
  | .pinV2 request => (request.isSome && ok, useOf .request request)
  | .sourceV1 p _ _ => (p.line.isSome && ok, p.lineCalls)
  | .sourceV2 p => (p.request.isSome && ok, useOf .request p.request)

/-- `read_event`; `e` is none if nothing was read, and the event in it is none if version 2
finds none in its buffer. -/
def readEvent (e : Option (Option GpiodEdgeEvent)) (o : GpiodObject) :
    Option PinEvent × GpiodObject × GpiodCalls :=
  if !o.valid then (none, o, [])
  else
    match o with
    | .sourceV1 p lineOffset sequence =>
        match e.join with
        | none => (none, o, p.lineCalls)
        | some e =>
            (some { type := e.type
                    timestampUs := e.seconds * 1000000 + e.nanoseconds / 1000
                    sourceId := lineOffset
                    sequence := sequence + 1
                    level := e.type = .risingEdge },
              .sourceV1 p lineOffset (sequence + 1), p.lineCalls)
    | .sourceV2 p =>
        let calls := useOf .edgeEventBuffer p.buffer ++ useOf .request p.request
        match e with
        | none => (none, o, calls)
        | some none => (none, o, useOf .edgeEventBuffer p.buffer ++ calls)
        | some (some e) =>
            (some { type := e.type
                    timestampUs := e.nanoseconds / 1000
                    sourceId := e.offset
                    sequence := e.seqno.toUInt32
                    level := e.type = .risingEdge },
              o, useOf .edgeEventBuffer p.buffer ++ calls)
    | _ => (none, o, [])

end GpiodObject

/-! ## What one operation does with its handles -/

/-- The calls take the handles of an object, by their kinds, from `c` to `d`. -/
def Settles (c : GpiodKind → Option Nat) (calls : GpiodCalls) (d : GpiodKind → Option Nat) :
    Prop :=
  ∀ k, cell ((c k).map (Prod.mk k)) (calls.filter (·.name.1 = k)) = some ((d k).map (Prod.mk k))

theorem Settles.trans {c d e : GpiodKind → Option Nat} {calls calls' : GpiodCalls}
    (h : Settles c calls d) (h' : Settles d calls' e) : Settles c (calls' ++ calls) e := by
  intro k
  rw [List.filter_append, cell_append, h k]
  exact h' k

theorem Settles.congr {c d d' : GpiodKind → Option Nat} {calls : GpiodCalls}
    (h : Settles c calls d) (hd : ∀ k, d k = d' k) : Settles c calls d' :=
  (funext hd : d = d') ▸ h

/-- A clean-up gives back what is there, and nothing where nothing is. -/
theorem giveBack_settles (c : GpiodKind → Option Nat) (kind : GpiodKind) :
    Settles c (giveBack kind (c kind)) (Function.update c kind none) := by
  intro k
  by_cases hk : k = kind
  · subst hk
    cases c k <;> simp [giveBack, Entry.name, cell, Entry.apply]
  · cases c kind <;> simp [giveBack, Entry.name, cell, hk, Ne.symm hk]

theorem acquire_settles {c : GpiodKind → Option Nat} {kind : GpiodKind} (h : c kind = none)
    (handle : Option Nat) :
    Settles c (acquire kind handle) (Function.update c kind handle) := by
  intro k
  by_cases hk : k = kind
  · subst hk
    cases handle <;> simp [acquire, h, Entry.name, cell, Entry.apply]
  · cases handle <;> simp [acquire, Entry.name, cell, hk, Ne.symm hk]

theorem useOf_settles (c : GpiodKind → Option Nat) (kind : GpiodKind) :
    Settles c (useOf kind (c kind)) c := by
  intro k
  by_cases hk : k = kind
  · subst hk
    cases c k <;> simp [useOf, Entry.name, cell, Entry.apply]
  · cases c kind <;> simp [useOf, Entry.name, cell, Ne.symm hk]

theorem Settles.refl (c : GpiodKind → Option Nat) : Settles c [] c := fun _ => rfl

theorem used_settles {c : GpiodKind → Option Nat} {kind : GpiodKind} {n : Nat}
    (h : c kind = some n) : Settles c [.used (kind, n)] c := by
  have huse := useOf_settles c kind
  rw [h] at huse
  exact huse

theorem close_settles_v1 (s : GpiodLineV1) : Settles s.cells s.close.2 s.close.1.cells := by
  have hline := giveBack_settles s.cells .line
  have hchip := useOf_settles (Function.update s.cells .line none) .chip
  have hclosed := giveBack_settles (Function.update s.cells .line none) .chip
  have hcells : Function.update (Function.update s.cells .line none) .chip none
      = s.close.1.cells := by
    funext k
    cases k <;> rfl
  rw [← hcells]
  exact (hline.trans hchip).trans hclosed

theorem lineCalls_settles (s : GpiodLineV1) : Settles s.cells s.lineCalls s.cells := by
  unfold GpiodLineV1.lineCalls
  split
  · exact .refl s.cells
  · rename_i line hline
    have hcell : s.cells .line = some line := hline
    exact (used_settles hcell).trans (useOf_settles s.cells .chip)

theorem openLine_settles (chipPath : List UInt8) (lineOffset : Nat) (purpose : LineUse)
    (consumer : String) (env : GpiodEnvV1) :
    Settles (fun _ => none) (GpiodLineV1.openLine chipPath lineOffset purpose consumer env).2
      (GpiodLineV1.openLine chipPath lineOffset purpose consumer env).1.cells := by
  unfold GpiodLineV1.openLine
  split
  · intro k
    cases k <;> rfl
  · rename_i chip _
    have hchip : Settles (fun _ => none) [.used (.chip, chip), .acquired (.chip, chip)]
        (GpiodLineV1.cells { chip := some chip }) := by
      intro k
      cases k <;> simp [GpiodLineV1.cells, Entry.name, cell, Entry.apply]
    split
    · exact hchip.trans (close_settles_v1 { chip := some chip })
    · rename_i line _
      have hline : Settles (GpiodLineV1.cells { chip := some chip }) [.acquired (.line, line)]
          (GpiodLineV1.cells { chip := some chip, line := some line }) := by
        intro k
        cases k <;> simp [GpiodLineV1.cells, Entry.name, cell, Entry.apply]
      have hopened := (hchip.trans hline).trans
        (lineCalls_settles { chip := some chip, line := some line })
      dsimp only
      split
      · exact hopened
      · exact hopened.trans (close_settles_v1 { chip := some chip, line := some line })

/-- The chip a request is made on, the request, and what is in the local variables. -/
def requestFrame (chip : Nat) (request settings lineConfig requestConfig : Option Nat) :
    GpiodKind → Option Nat
  | .chip => some chip
  | .request => request
  | .settings => settings
  | .lineConfig => lineConfig
  | .requestConfig => requestConfig
  | _ => none

section Request

variable (chip : Nat) (env : GpiodEnvV2)

theorem created_settles :
    Settles (requestFrame chip none none none none)
      (acquire .requestConfig env.requestConfig ++
        (acquire .lineConfig env.lineConfig ++ acquire .settings env.settings))
      (requestFrame chip none env.settings env.lineConfig env.requestConfig) := by
  have hsettings := acquire_settles (rfl : requestFrame chip none none none none .settings = none)
    env.settings
  have hlineConfig := acquire_settles
    (rfl : Function.update (requestFrame chip none none none none) .settings env.settings
      .lineConfig = none) env.lineConfig
  have hrequestConfig := acquire_settles
    (rfl : Function.update (Function.update (requestFrame chip none none none none) .settings
      env.settings) .lineConfig env.lineConfig .requestConfig = none) env.requestConfig
  refine Settles.congr ((hsettings.trans hlineConfig).trans hrequestConfig) fun k => ?_
  cases k <;> rfl

theorem cleanupSetup_settles (request : Option Nat) :
    Settles (requestFrame chip request env.settings env.lineConfig env.requestConfig)
      (cleanupSetup env) (requestFrame chip request none none none) := by
  have hrequestConfig := giveBack_settles
    (requestFrame chip request env.settings env.lineConfig env.requestConfig) .requestConfig
  have hlineConfig := giveBack_settles
    (requestFrame chip request env.settings env.lineConfig none) .lineConfig
  have hsettings := giveBack_settles (requestFrame chip request env.settings none none) .settings
  have hframes : Function.update
        (requestFrame chip request env.settings env.lineConfig env.requestConfig)
        .requestConfig none = requestFrame chip request env.settings env.lineConfig none
      ∧ Function.update (requestFrame chip request env.settings env.lineConfig none)
        .lineConfig none = requestFrame chip request env.settings none none
      ∧ Function.update (requestFrame chip request env.settings none none)
        .settings none = requestFrame chip request none none none := by
    refine ⟨?_, ?_, ?_⟩ <;> funext k <;> cases k <;> rfl
  rw [hframes.1] at hrequestConfig
  rw [hframes.2.1] at hlineConfig
  rw [hframes.2.2] at hsettings
  exact (hrequestConfig.trans hlineConfig).trans hsettings

/-- **The clean-up**: the local variables are empty again on every path, and what is left
is the request, if there is one. -/
theorem requestLines_settles (lineOffset : Nat) (purpose : LineUse) (consumer : String) :
    Settles (requestFrame chip none none none none)
      (requestLines chip lineOffset purpose consumer env).2
      (requestFrame chip (requestLines chip lineOffset purpose consumer env).1 none none none) := by
  have hcreated := created_settles chip env
  have hcleanup := cleanupSetup_settles chip env
  unfold requestLines
  dsimp only
  split
  · rename_i settings lineConfig requestConfig hsettings hlineConfig hrequestConfig
    rw [hsettings, hlineConfig, hrequestConfig] at hcreated hcleanup ⊢
    have huse (kind : GpiodKind) (n : Nat)
        (h : requestFrame chip none (some settings) (some lineConfig) (some requestConfig) kind
          = some n) := used_settles h
    have hadded := ((hcreated.trans (huse .settings settings rfl)).trans
      (huse .lineConfig lineConfig rfl)).trans (huse .settings settings rfl)
    split
    · have hprepared := (((hadded.trans (huse .requestConfig requestConfig rfl)).trans
        (huse .chip chip rfl)).trans (huse .requestConfig requestConfig rfl)).trans
        (huse .lineConfig lineConfig rfl)
      have hrequest := acquire_settles
        (rfl : requestFrame chip none (some settings) (some lineConfig) (some requestConfig)
          .request = none) (env.request consumer)
      have hframe : Function.update
          (requestFrame chip none (some settings) (some lineConfig) (some requestConfig))
          .request (env.request consumer)
          = requestFrame chip (env.request consumer) (some settings) (some lineConfig)
            (some requestConfig) := by
        funext k
        cases k <;> rfl
      rw [hframe] at hrequest
      exact (hprepared.trans hrequest).trans (hcleanup (env.request consumer))
    · exact hadded.trans (hcleanup none)
  · exact hcreated.trans (hcleanup none)

end Request

/-- A chip that is opened for one request. -/
theorem chip_settles (chip : Nat) :
    Settles (fun _ => none) (acquire .chip (some chip))
      (requestFrame chip none none none none) := by
  intro k
  cases k <;> simp [acquire, requestFrame, Entry.name, cell, Entry.apply]

theorem requestOne_settles (chipName : Option (List UInt8)) (lineOffset : Nat)
    (purpose : LineUse) (consumer : Option String) (env : GpiodEnvV2) :
    let requested := requestOneGpiodLineV2 chipName lineOffset purpose consumer env
    Settles (fun _ => none) requested.2 (GpiodObject.pinV2 requested.1).cells := by
  have hnone : (fun _ : GpiodKind => (none : Option Nat)) = (GpiodObject.pinV2 none).cells := by
    funext k
    cases k <;> rfl
  unfold requestOneGpiodLineV2
  dsimp only
  split
  · exact hnone ▸ Settles.refl _
  · split
    · exact hnone ▸ Settles.refl _
    · rename_i chip _
      have hrequested := (chip_settles chip).trans
        (requestLines_settles chip env lineOffset purpose (consumer.getD "async_event_loop"))
      have hclosed := giveBack_settles (requestFrame chip (requestLines chip lineOffset purpose
        (consumer.getD "async_event_loop") env).1 none none none) .chip
      refine Settles.congr (hrequested.trans hclosed) fun k => ?_
      cases k <;> rfl

theorem openSource_settles (chipPath : List UInt8) (lineOffset : Nat) (type : PinEventType)
    (consumer : Option String) (debounceUs eventBufferCapacity : Nat) (env : GpiodEnvV2) :
    let opened := GpiodSourceV2.openSource chipPath lineOffset type consumer debounceUs
      eventBufferCapacity env
    Settles (fun _ => none) opened.2 opened.1.cells := by
  unfold GpiodSourceV2.openSource
  dsimp only
  split
  · intro k
    cases k <;> rfl
  · rename_i chip _
    have hrequested := (chip_settles chip).trans
      (requestLines_settles chip env lineOffset (.events (toGpiodEdge type) debounceUs)
        (consumer.getD "pypilot-event-loop"))
    split
    · rename_i hnone
      rw [hnone] at hrequested
      refine Settles.congr (hrequested) fun k => ?_
      cases k <;> rfl
    · rename_i request hsome
      rw [hsome] at hrequested
      have hbuffer := acquire_settles
        (rfl : requestFrame chip (some request) none none none .edgeEventBuffer = none)
        (env.buffer eventBufferCapacity)
      refine Settles.congr (hrequested.trans hbuffer) fun k => ?_
      cases k <;> rfl

theorem close_settles_v2 (s : GpiodSourceV2) : Settles s.cells s.close.2 s.close.1.cells := by
  have hbuffer := giveBack_settles s.cells .edgeEventBuffer
  have hrequest := giveBack_settles (Function.update s.cells .edgeEventBuffer none) .request
  have hchip := giveBack_settles
    (Function.update (Function.update s.cells .edgeEventBuffer none) .request none) .chip
  refine Settles.congr ((hbuffer.trans hrequest).trans hchip) fun k => ?_
  cases k <;> rfl

/-! ## All runs -/

/-- A constructor, its arguments and what libgpiod returns to it. -/
inductive GpiodNew where
  | pinV1 (chipName : Option (List UInt8)) (lineOffset : Nat) (purpose : LineUse)
      (consumer : Option String) (env : GpiodEnvV1)
  | pinV2 (chipName : Option (List UInt8)) (lineOffset : Nat) (purpose : LineUse)
      (consumer : Option String) (env : GpiodEnvV2)
  | sourceV1 (chipPath : List UInt8) (lineOffset : UInt32) (type : PinEventType)
      (consumer : Option String) (env : GpiodEnvV1)
  | sourceV2 (chipPath : List UInt8) (lineOffset : UInt32) (type : PinEventType)
      (consumer : Option String) (debounceUs eventBufferCapacity : Nat) (env : GpiodEnvV2)

def GpiodNew.apply : GpiodNew → GpiodObject × GpiodCalls
  | .pinV1 chipName lineOffset purpose consumer env =>
      GpiodObject.newPinV1 chipName lineOffset purpose consumer env
  | .pinV2 chipName lineOffset purpose consumer env =>
      GpiodObject.newPinV2 chipName lineOffset purpose consumer env
  | .sourceV1 chipPath lineOffset type consumer env =>
      GpiodObject.newSourceV1 chipPath lineOffset type consumer env
  | .sourceV2 chipPath lineOffset type consumer debounceUs eventBufferCapacity env =>
      GpiodObject.newSourceV2 chipPath lineOffset type consumer debounceUs eventBufferCapacity env

theorem new_settles (made : GpiodNew) :
    Settles (fun _ => none) made.apply.2 made.apply.1.cells := by
  cases made with
  | pinV1 chipName lineOffset purpose consumer env =>
      simp only [GpiodNew.apply, GpiodObject.newPinV1]
      split
      · intro k
        cases k <;> rfl
      · exact openLine_settles _ _ _ _ _
  | pinV2 chipName lineOffset purpose consumer env => exact requestOne_settles _ _ _ _ _
  | sourceV1 chipPath lineOffset type consumer env => exact openLine_settles _ _ _ _ _
  | sourceV2 chipPath lineOffset type consumer debounceUs eventBufferCapacity env =>
      exact openSource_settles _ _ _ _ _ _ _

theorem access_settles (ok : Bool) (o : GpiodObject) : Settles o.cells (o.access ok).2 o.cells := by
  cases o with
  | pinV1 p => exact lineCalls_settles p
  | pinV2 request => exact useOf_settles (GpiodObject.pinV2 request).cells .request
  | sourceV1 p _ _ => exact lineCalls_settles p
  | sourceV2 p => exact useOf_settles p.cells .request

theorem readEvent_settles (e : Option (Option GpiodEdgeEvent)) (o : GpiodObject) :
    Settles o.cells (o.readEvent e).2.2 (o.readEvent e).2.1.cells := by
  unfold GpiodObject.readEvent
  split
  · exact .refl o.cells
  · split
    · rename_i p _ _ _
      split <;> exact lineCalls_settles p
    · rename_i p _
      have hread := (useOf_settles p.cells .request).trans
        (useOf_settles p.cells .edgeEventBuffer)
      split
      · exact hread
      · exact hread.trans (useOf_settles p.cells .edgeEventBuffer)
      · exact hread.trans (useOf_settles p.cells .edgeEventBuffer)
    · exact .refl o.cells

theorem destroy_settles (o : GpiodObject) : Settles o.cells o.destroy fun _ => none := by
  have hempty : (fun _ : GpiodKind => (none : Option Nat)) = ({} : GpiodLineV1).cells := by
    funext k
    cases k <;> rfl
  cases o with
  | pinV1 p => exact hempty ▸ close_settles_v1 p
  | pinV2 request =>
      refine Settles.congr (giveBack_settles (GpiodObject.pinV2 request).cells .request) fun k => ?_
      cases k <;> rfl
  | sourceV1 p _ _ => exact hempty ▸ close_settles_v1 p
  | sourceV2 p =>
      refine Settles.congr (close_settles_v2 p) fun k => ?_
      cases k <;> rfl

/-- The pins and sources of a process, and the calls of libgpiod so far, the last one in
front. -/
structure GpiodDevices where
  objects : Nat → Option GpiodObject := fun _ => none
  calls : GpiodCalls := []

inductive GpiodEvent where
  | create (i : Nat) (made : GpiodNew)
  | access (i : Nat) (ok : Bool)
  | readEvent (i : Nat) (e : Option (Option GpiodEdgeEvent))
  | destroy (i : Nat)

namespace GpiodDevices

/-- The handles, by the object and the kind. -/
def cells (w : GpiodDevices) (slot : Nat × GpiodKind) : Option GpiodHandle :=
  (w.objects slot.1).bind fun o => (o.cells slot.2).map (Prod.mk slot.2)

/-- The object is what the calls have left of it, if libgpiod can answer them so: a handle
it returns is none of those it has handed out and not got back. -/
def record (w : GpiodDevices) (i : Nat) (o : Option GpiodObject) (calls : GpiodCalls) :
    Option GpiodDevices :=
  if Grants w.calls calls then
    some { objects := Function.update w.objects i o, calls := calls ++ w.calls }
  else none

def step (w : GpiodDevices) : GpiodEvent → Option GpiodDevices
  | .create i made =>
      match w.objects i with
      | some _ => none
      | none => w.record i (some made.apply.1) made.apply.2
  | .access i ok => (w.objects i).bind fun o => w.record i (some o) (o.access ok).2
  | .readEvent i e => (w.objects i).bind fun o =>
      w.record i (some (o.readEvent e).2.1) (o.readEvent e).2.2
  | .destroy i => (w.objects i).bind fun o => w.record i none o.destroy

/-- The handles of an object that is not there are none. -/
def handlesOf (o : Option GpiodObject) : GpiodKind → Option Nat
  | kind => o.bind fun o => o.cells kind

/-- **One operation**: what the objects hold, and what libgpiod has handed out, go on
agreeing. -/
theorem record_books {w w' : GpiodDevices} {i : Nat} {o : Option GpiodObject}
    {calls : GpiodCalls} (h : Books w.calls w.cells)
    (hsettles : Settles (handlesOf (w.objects i)) calls (handlesOf o))
    (hrecord : w.record i o calls = some w') : Books w'.calls w'.cells := by
  unfold record at hrecord
  split at hrecord
  · rename_i hgrants
    obtain rfl := Option.some.inj hrecord
    have hentries : (calls.map fun e => ((i, e.name.1), e)).map Prod.snd = calls := by
      simp [Function.comp_def]
    have hkeeps : Keeps w.cells (calls.map fun e => ((i, e.name.1), e))
        (cells { objects := Function.update w.objects i o, calls := calls ++ w.calls }) := by
      rintro ⟨j, kind⟩
      by_cases hji : j = i
      · subst hji
        have hown : entriesOf (j, kind) (calls.map fun e => ((j, e.name.1), e))
            = calls.filter (·.name.1 = kind) := by
          simp [entriesOf, List.filter_map, Function.comp_def]
        have hbefore : w.cells (j, kind)
            = (handlesOf (w.objects j) kind).map (Prod.mk kind) := by
          cases hw : w.objects j <;> simp [cells, handlesOf, hw]
        have hafter : cells { objects := Function.update w.objects j o, calls := calls ++ w.calls }
            (j, kind) = (handlesOf o kind).map (Prod.mk kind) := by
          cases o <;> simp [cells, handlesOf]
        rw [hown, hbefore, hafter]
        exact hsettles kind
      · have hnone : entriesOf (j, kind) (calls.map fun e => ((i, e.name.1), e)) = [] := by
          simp [entriesOf, Ne.symm hji]
        rw [hnone]
        simp [cell, cells, Function.update_of_ne hji]
    have hpost := h.post hkeeps (by rw [hentries]; exact hgrants)
    rw [hentries] at hpost
    exact hpost
  · cases hrecord

theorem step_books {w w' : GpiodDevices} {e : GpiodEvent} (h : Books w.calls w.cells)
    (hstep : w.step e = some w') : Books w'.calls w'.cells := by
  cases e with
  | create i made =>
      simp only [step] at hstep
      split at hstep
      · cases hstep
      · rename_i hnone
        refine record_books h ?_ hstep
        rw [hnone]
        exact new_settles made
  | access i ok =>
      obtain ⟨o, ho, hrecord⟩ := Option.bind_eq_some_iff.mp hstep
      refine record_books h ?_ hrecord
      rw [ho]
      exact access_settles ok o
  | readEvent i e =>
      obtain ⟨o, ho, hrecord⟩ := Option.bind_eq_some_iff.mp hstep
      refine record_books h ?_ hrecord
      rw [ho]
      exact readEvent_settles e o
  | destroy i =>
      obtain ⟨o, ho, hrecord⟩ := Option.bind_eq_some_iff.mp hstep
      refine record_books h ?_ hrecord
      rw [ho]
      exact destroy_settles o

/-- **No handle leaks, none is freed twice and none is used when it is gone**: whatever pins
and sources are constructed, used and destroyed, under either version of libgpiod and
whichever of its calls fail. What libgpiod has handed out and not got back is what the
objects hold, each handle one object and in one member; nothing is left of the local
variables of a constructor; and every handle was there at every call made with it. -/
theorem handles_balance {w : GpiodDevices} {es : List GpiodEvent}
    (hrun : run step {} es = some w) :
    ∃ s, held w.calls = some s
      ∧ (∀ kind n, (kind, n) ∈ s ↔ ∃ i o, w.objects i = some o ∧ o.cells kind = some n)
      ∧ (∀ i j o p kind n, w.objects i = some o → w.objects j = some p →
          o.cells kind = some n → p.cells kind = some n → i = j)
      ∧ (∀ kind n, (kind, n) ∈ s → kind ≠ .settings ∧ kind ≠ .lineConfig ∧ kind ≠ .requestConfig)
      ∧ (∀ handle, w.calls.count (.acquired handle)
          = w.calls.count (.released handle) + if handle ∈ s then 1 else 0)
      ∧ ∀ later earlier call handle, w.calls = later ++ call :: earlier →
          call = .used handle ∨ call = .released handle →
          ∃ s', held earlier = some s' ∧ handle ∈ s' := by
  have hbooks : Books w.calls w.cells := by
    refine run_invariant (fun _ _ _ h hstep => step_books h hstep) ?_ hrun
    exact books_nil
  obtain ⟨⟨s, hs, hmem⟩, honce⟩ := hbooks
  have hcells {i : Nat} {o : GpiodObject} {kind : GpiodKind} {n : Nat}
      (ho : w.objects i = some o) (hn : o.cells kind = some n) :
      w.cells (i, kind) = some (kind, n) := by
    simp [cells, ho, hn]
  have hheld (kind : GpiodKind) (n : Nat) :
      (kind, n) ∈ s ↔ ∃ i o, w.objects i = some o ∧ o.cells kind = some n := by
    rw [hmem]
    constructor
    · rintro ⟨⟨i, k⟩, hcell⟩
      obtain ⟨o, ho, hkind⟩ := Option.bind_eq_some_iff.mp hcell
      obtain ⟨m, hm, hpair⟩ := Option.map_eq_some_iff.mp hkind
      cases hpair
      exact ⟨i, o, ho, hm⟩
    · rintro ⟨i, o, ho, hn⟩
      exact ⟨(i, kind), hcells ho hn⟩
  refine ⟨s, hs, hheld, ?_, ?_, count_acquired hs, fun later earlier call handle hcalls hcall => ?_⟩
  · intro i j o p kind n ho hp hn hn'
    exact (Prod.mk.inj (honce _ _ _ (hcells ho hn) (hcells hp hn'))).1
  · intro kind n hin
    obtain ⟨i, o, -, hn⟩ := (hheld kind n).mp hin
    refine ⟨?_, ?_, ?_⟩ <;>
      · rintro rfl
        cases o <;> cases hn
  · rw [hcalls] at hs
    exact held_before hcall hs

/-- libgpiod gives numbers from `first` on; `requests` is whether lines can be requested. -/
def countingFrom (first : Nat) (requests : Bool) : GpiodEnvV2 where
  chip _ := some first
  settings := some (first + 1)
  lineConfig := some (first + 2)
  requestConfig := some (first + 3)
  added _ _ := true
  request _ := if requests then some (first + 4) else none
  buffer _ := some (first + 5)

/-- The second source gets no request; the third gets the numbers the first gave back. -/
def threeSources : List GpiodEvent :=
  [.create 0 (.sourceV2 [47] 4 .change none 0 16 (countingFrom 0 true)),
    .create 1 (.sourceV2 [47] 5 .risingEdge none 100 16 (countingFrom 10 false)),
    .readEvent 0 (some (some { rising := true, nanoseconds := 5000 })),
    .readEvent 1 none, .destroy 0,
    .create 2 (.pinV2 (some [47]) 4 (.output true) none (countingFrom 0 true)),
    .access 2 true]

theorem handles_balance_run :
    ∃ w, run step {} threeSources = some w
      ∧ ∃ s, held w.calls = some s
        ∧ ∀ kind n, (kind, n) ∈ s ↔ ∃ i o, w.objects i = some o ∧ o.cells kind = some n := by
  obtain ⟨w, hw⟩ : ∃ w, run step {} threeSources = some w := ⟨_, rfl⟩
  obtain ⟨s, hs, hmem, -⟩ := handles_balance hw
  exact ⟨w, hw, s, hs, hmem⟩

end GpiodDevices

end AsyncEventLoop
