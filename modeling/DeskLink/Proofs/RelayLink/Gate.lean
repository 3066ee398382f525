import DeskLink.RelayLink.Gate
import DeskLink.Lib.Run

/-!
# `DeskLink.Proofs.RelayLink.Gate`: what the reader makes of what the gate let in

The gate reads a plaintext as one JSON text, and the reader each of its lines. `linePackets`
is what the lines come to. A link is `Exact` while what was handed over, and what the lines
that wait come to, are the packets that passed.

* `gate_and_reader`: a run is exact throughout just when each of its steps is `Whole`.
* `linePackets_outer`: a plaintext is read whole if all its line feeds stand before its
  first token or behind its last.
-/

set_option autoImplicit false

namespace DeskLink.RelayLink

open Lib (runFrom Always StepsMeet)
open Signaling (Value)
open Lib (utf8Bytes)

variable {parse : Bytes → Option Value}

/-! ### Lines -/

/-- The packets of the lines of a text that end in it, `line` being what was read of the
first. -/
def linesFrom (parse : Bytes → Option Value) (line : Bytes) : Bytes → List NetworkPacket
  | [] => []
  | value :: text =>
    if value = feed then (deserialize parse (line ++ [value])).toList ++ linesFrom parse [] text
    else linesFrom parse (line ++ [value]) text

/-- The packets that the reader makes of a plaintext. -/
def linePackets (parse : Bytes → Option Value) (plaintext : Bytes) : List NetworkPacket :=
  linesFrom parse [] (plaintext ++ [feed])

/-- What ends in a line feed leaves nothing behind. -/
theorem linesFrom_append (line text rest : Bytes) :
    linesFrom parse line (text ++ [feed] ++ rest)
      = linesFrom parse line (text ++ [feed]) ++ linesFrom parse [] rest := by
  induction text generalizing line with
  | nil => simp [linesFrom]
  | cons value text ih =>
    simp only [List.cons_append, linesFrom]
    split
    · rw [ih, List.append_assoc]
    · rw [ih]

/-! ### White space -/

/-- The white space of JSON. -/
def space : Bytes := [9, 10, 13, 32]

/-- What a reader of JSON does with white space around the value. -/
structure SkipsSpace (parse : Bytes → Option Value) : Prop where
  nothing : parse [] = none
  before : ∀ c ∈ space, ∀ text, parse (c :: text) = parse text
  behind : ∀ c ∈ space, ∀ text, parse (text ++ [c]) = parse text

section
variable {blank line text after : Bytes} {packet : NetworkPacket}

theorem SkipsSpace.parse_before (h : SkipsSpace parse) (hblank : ∀ c ∈ blank, c ∈ space)
    (text : Bytes) : parse (blank ++ text) = parse text := by
  induction blank with
  | nil => rfl
  | cons c blank ih =>
    rw [List.cons_append, h.before c (hblank c List.mem_cons_self)]
    exact ih (fun d hd => hblank d (List.mem_cons_of_mem _ hd))

theorem SkipsSpace.parse_behind (h : SkipsSpace parse) (hblank : ∀ c ∈ blank, c ∈ space)
    (text : Bytes) : parse (text ++ blank) = parse text := by
  induction blank generalizing text with
  | nil => rw [List.append_nil]
  | cons c blank ih =>
    have hrest := ih (fun d hd => hblank d (List.mem_cons_of_mem _ hd)) (text ++ [c])
    rw [List.append_assoc, List.singleton_append] at hrest
    rw [hrest, h.behind c (hblank c List.mem_cons_self)]

theorem SkipsSpace.parse_blank (h : SkipsSpace parse) (hblank : ∀ c ∈ blank, c ∈ space) :
    parse blank = none := by
  have hparse := h.parse_before hblank []
  rwa [List.append_nil, h.nothing] at hparse

theorem nil_space : ∀ c ∈ ([] : Bytes), c ∈ space := by simp

/-- The lines of white space are blank: they have no packets. -/
theorem linesFrom_skip (h : SkipsSpace parse) (hline : ∀ c ∈ line, c ∈ space)
    (hblank : ∀ c ∈ blank, c ∈ space) (rest : Bytes) : ∃ left : Bytes,
      (∀ c ∈ left, c ∈ space) ∧ linesFrom parse line (blank ++ rest) = linesFrom parse left rest := by
  induction blank generalizing line with
  | nil => exact ⟨line, hline, rfl⟩
  | cons c blank ih =>
    have hmore : ∀ d ∈ line ++ [c], d ∈ space := by
      intro d hd
      obtain hd | hd := List.mem_append.mp hd
      · exact hline d hd
      · rw [List.mem_singleton.mp hd]
        exact hblank c List.mem_cons_self
    have hrest : ∀ d ∈ blank, d ∈ space := fun d hd => hblank d (List.mem_cons_of_mem _ hd)
    rw [List.cons_append, linesFrom]
    split
    · rw [deserialize, h.parse_blank hmore]
      exact ih nil_space hrest
    · exact ih hmore hrest

/-- A line is done at the first line feed behind it. -/
theorem linesFrom_done (h : SkipsSpace parse) (line : Bytes) (hblank : ∀ c ∈ blank, c ∈ space) :
    linesFrom parse line (blank ++ [feed]) = (deserialize parse line).toList := by
  have hfeed : feed ∈ space := by decide
  induction blank generalizing line with
  | nil =>
    rw [List.nil_append, linesFrom, if_pos rfl, deserialize, h.behind feed hfeed]
    exact List.append_nil _
  | cons c blank ih =>
    have hc := hblank c List.mem_cons_self
    have hrest : ∀ d ∈ blank, d ∈ space := fun d hd => hblank d (List.mem_cons_of_mem _ hd)
    rw [List.cons_append, linesFrom]
    split
    · obtain ⟨left, hleft, heq⟩ := linesFrom_skip h nil_space hrest [feed]
      have hnone : linesFrom parse left [feed] = [] := by
        rw [linesFrom, if_pos rfl, deserialize, h.behind feed hfeed, h.parse_blank hleft]
        rfl
      rw [heq, hnone, List.append_nil, deserialize, h.behind c hc]
      rfl
    · rw [ih (line ++ [c]) hrest, deserialize, h.behind c hc]
      rfl

theorem linesFrom_text (htext : feed ∉ text) (line rest : Bytes) :
    linesFrom parse line (text ++ rest) = linesFrom parse (line ++ text) rest := by
  induction text generalizing line with
  | nil => rw [List.nil_append, List.append_nil]
  | cons c text ih =>
    rw [List.mem_cons, not_or] at htext
    rw [List.cons_append, linesFrom, if_neg (Ne.symm htext.1), ih htext.2, List.append_assoc,
      List.singleton_append]

/-- A plaintext whose line feeds all stand before its first token or behind its last has one
packet, its own. -/
theorem linePackets_outer (h : SkipsSpace parse) (hblank : ∀ c ∈ blank, c ∈ space)
    (htext : feed ∉ text) (hafter : ∀ c ∈ after, c ∈ space)
    (hpacket : deserialize parse (blank ++ (text ++ after)) = some packet) :
    linePackets parse (blank ++ (text ++ after)) = [packet] := by
  rw [deserialize, h.parse_before hblank, h.parse_behind hafter] at hpacket
  obtain ⟨left, hleft, heq⟩ := linesFrom_skip h nil_space hblank (text ++ (after ++ [feed]))
  rw [linePackets, List.append_assoc, List.append_assoc, heq, linesFrom_text htext,
    linesFrom_done h _ hafter, deserialize, h.parse_before hleft, hpacket]
  rfl

end

/-! ### Steps -/

namespace Link

variable {w w' : Link} {plaintext : Bytes} {requested : Bool} {a : LinkStep}

/-- The packets of the lines that wait. -/
def toCome (parse : Bytes → Option Value) (w : Link) : List NetworkPacket :=
  if w.ended then [] else linesFrom parse w.line w.inbound

/-- What was handed over and what waits are the packets that passed. -/
def Exact (parse : Bytes → Option Value) (w : Link) : Prop :=
  w.handed ++ w.toCome parse = w.passed

/-- What waits ends in a line feed, and what passed was allowed. -/
structure Sound (parse : Bytes → Option Value) (w : Link) : Prop where
  framed : w.ended = false → ∀ rest, linesFrom parse w.line (w.inbound ++ rest)
    = linesFrom parse w.line w.inbound ++ linesFrom parse [] rest
  allowed : ∀ requested, ∀ packet ∈ w.passed, allowedOnRelay requested packet = true

/-- A plaintext that passes has one line that is a packet, its own, and the loop still runs.
A line is too long only where nothing waits. -/
def Whole (parse : Bytes → Option Value) (w : Link) : LinkStep → Prop
  | .packet plaintext requested => ∀ packet, gate parse requested plaintext = some packet →
    w.ended = false ∧ linePackets parse plaintext = [packet]
  | .read paired => lineLimit (w.line.length + 1) paired < w.line.length + 1 →
    w.toCome parse = []

theorem start_sound : ({} : Link).Sound parse where
  framed _ _ := rfl
  allowed _ packet hpacket := by cases hpacket

theorem read_cases {paired : Bool} (hstep : step parse w (.read paired) = some w') :
    ∃ value inbound, w.inbound = value :: inbound ∧ w.ended = false ∧
      w' = push parse { w with inbound } value paired := by
  simp only [step] at hstep
  split at hstep
  · cases hstep
  · rename_i value inbound hinbound
    split at hstep
    · cases hstep
    · rename_i hended
      cases hstep
      exact ⟨value, inbound, hinbound, Bool.eq_false_of_not_eq_true hended, rfl⟩

theorem packet_cases (hstep : step parse w (.packet plaintext requested) = some w') :
    (gate parse requested plaintext = none ∧ w' = w) ∨
      ∃ packet, gate parse requested plaintext = some packet ∧
        w' = { w.deliver plaintext with passed := w.passed ++ [packet] } := by
  simp only [step] at hstep
  split at hstep
  · rename_i hgate
    cases hstep
    exact .inl ⟨hgate, rfl⟩
  · rename_i packet hgate
    cases hstep
    exact .inr ⟨packet, hgate, rfl⟩

/-- The hidden setting makes no difference: what it opens is not compiled in. -/
theorem allowed_of_gate {packet : NetworkPacket} (h : gate parse requested plaintext = some packet)
    (now : Bool) : allowedOnRelay now packet = true :=
  (Option.filter_eq_some_iff.mp h).2

theorem step_sound (h : w.Sound parse) (hstep : step parse w a = some w') : w'.Sound parse := by
  cases a with
  | packet plaintext requested =>
    obtain ⟨-, rfl⟩ | ⟨packet, hgate, rfl⟩ := packet_cases hstep
    · exact h
    · refine ⟨fun _ rest => ?_, fun now p hp => ?_⟩
      · show linesFrom parse w.line (w.inbound ++ plaintext ++ [feed] ++ rest)
          = linesFrom parse w.line (w.inbound ++ plaintext ++ [feed]) ++ _
        exact linesFrom_append w.line (w.inbound ++ plaintext) rest
      · obtain hp | hp := List.mem_append.mp hp
        · exact h.allowed now p hp
        · rw [List.mem_singleton.mp hp]
          exact allowed_of_gate hgate now
  | read paired =>
    obtain ⟨value, inbound, hinbound, hended, rfl⟩ := read_cases hstep
    have hframed := h.framed hended
    rw [hinbound] at hframed
    unfold push
    simp only
    split
    · exact ⟨fun hfalse => Bool.noConfusion hfalse, h.allowed⟩
    · split
      · rename_i hvalue
        refine ⟨fun _ rest => ?_, h.allowed⟩
        have hrest := hframed rest
        rwa [List.cons_append, linesFrom, linesFrom, if_neg hvalue, if_neg hvalue] at hrest
      · rename_i hvalue
        rw [ne_eq, not_not] at hvalue
        refine ⟨fun _ rest => ?_, h.allowed⟩
        have hrest := hframed rest
        rw [List.cons_append, linesFrom, linesFrom, if_pos hvalue, if_pos hvalue,
          List.append_assoc] at hrest
        exact List.append_cancel_left hrest

theorem toCome_running (h : w.ended = false) :
    w.toCome parse = linesFrom parse w.line w.inbound := by
  rw [toCome, h, if_neg Bool.false_ne_true]

/-- A step of an exact link leaves it exact just when it is whole. -/
theorem exact_iff_whole (h : w.Sound parse) (hexact : w.Exact parse)
    (hstep : step parse w a = some w') : w'.Exact parse ↔ w.Whole parse a := by
  cases a with
  | packet plaintext requested =>
    obtain ⟨hgate, rfl⟩ | ⟨packet, hgate, rfl⟩ := packet_cases hstep
    · refine iff_of_true hexact (fun packet hpacket => ?_)
      rw [hgate] at hpacket
      cases hpacket
    · have hwhole : w.Whole parse (.packet plaintext requested) ↔
          w.ended = false ∧ linePackets parse plaintext = [packet] := by
        refine ⟨fun hwhole => hwhole packet hgate, fun hwhole p hp => ?_⟩
        rw [hgate] at hp
        cases hp
        exact hwhole
      rw [hwhole, Exact]
      cases hended : w.ended with
      | true =>
        -- The loop hands over nothing more.
        rw [Exact, toCome, hended, if_pos rfl, List.append_nil] at hexact
        refine iff_of_false (fun hnow => ?_) (fun hnot => Bool.noConfusion hnot.1)
        have hmore : w.handed ++ [] = w.passed ++ [packet] := by
          simpa [toCome, deliver, hended] using hnow
        rw [List.append_nil, hexact] at hmore
        have hlength := congrArg List.length hmore
        rw [List.length_append, List.length_singleton] at hlength
        omega
      | false =>
        rw [Exact, toCome_running hended] at hexact
        have hcome : toCome parse { w.deliver plaintext with passed := w.passed ++ [packet] }
            = linesFrom parse w.line w.inbound ++ linePackets parse plaintext := by
          rw [toCome_running]
          · show linesFrom parse w.line (w.inbound ++ plaintext ++ [feed]) = _
            rw [List.append_assoc, h.framed hended]
            rfl
          · exact hended
        rw [hcome, ← List.append_assoc]
        show w.handed ++ _ ++ linePackets parse plaintext = w.passed ++ [packet] ↔ _
        rw [hexact, List.append_cancel_left_eq]
        exact ⟨fun hlines => ⟨rfl, hlines⟩, And.right⟩
  | read paired =>
    obtain ⟨value, inbound, hinbound, hended, rfl⟩ := read_cases hstep
    rw [Exact, toCome_running hended, hinbound, linesFrom] at hexact
    have hlength : (w.line ++ [value]).length = w.line.length + 1 := List.length_append
    rw [Whole, ← hlength, toCome_running hended, hinbound, linesFrom, Exact]
    unfold push
    simp only
    split
    · rename_i hlong
      rw [toCome, if_pos rfl, List.append_nil]
      constructor
      · intro hnow _
        rw [← hnow] at hexact
        exact List.append_right_eq_self.mp hexact
      · intro hnone
        rw [hnone hlong, List.append_nil] at hexact
        exact hexact
    · rename_i hshort
      refine iff_of_true ?_ (fun hlong => absurd hlong hshort)
      split
      · rename_i hvalue
        rw [if_neg hvalue] at hexact
        rw [toCome_running]
        · exact hexact
        · exact hended
      · rename_i hvalue
        rw [ne_eq, not_not] at hvalue
        rw [if_pos hvalue, ← List.append_assoc] at hexact
        rw [toCome_running]
        · exact hexact
        · exact hended

theorem run_sound {steps : List LinkStep} (hrun : runFrom (step parse) {} steps = some w) :
    w.Sound parse :=
  Lib.runFrom_invariant (I := Sound parse) (fun _ _ _ h hstep => step_sound h hstep) start_sound
    hrun

/-- A run is exact throughout just when each of its steps is whole. While it is, what was
handed over is a part of what passed, all of it once nothing waits, and allowed. -/
theorem gate_and_reader {steps : List LinkStep} (hrun : runFrom (step parse) {} steps = some w) :
    (Always (step parse) (Exact parse) {} steps ↔ StepsMeet (step parse) (Whole parse) {} steps) ∧
    (w.Exact parse → w.handed <+: w.passed ∧ (w.inbound = [] → w.handed = w.passed) ∧
      ∀ requested, ∀ packet ∈ w.handed, allowedOnRelay requested packet = true) := by
  refine ⟨?_, fun hexact => ?_⟩
  · exact Lib.always_iff_stepsMeet (I := Sound parse) (fun _ _ _ h hstep => step_sound h hstep)
      (fun _ _ _ h hP hstep => exact_iff_whole h hP hstep) start_sound rfl hrun
  · have hpart : w.handed <+: w.passed := ⟨w.toCome parse, hexact⟩
    refine ⟨hpart, fun hempty => ?_, fun requested packet hpacket => ?_⟩
    · have hnone : w.toCome parse = [] := by
        rw [toCome, hempty]
        split
        · rfl
        · rfl
      rw [Exact, hnone, List.append_nil] at hexact
      exact hexact
    · exact (run_sound hrun).allowed requested packet (hpart.subset hpacket)

/-- A heartbeat with an entry that nothing reads, on a line of its own. -/
def hostileInner : Bytes := utf8Bytes "\x7b\"type\":\"desklink.pair\",\"body\":\x7b\"pair\":true\x7d\x7d"

def hostile : Bytes :=
  utf8Bytes "\x7b\"type\":\"desklink.heartbeat\",\"x\":" ++ [feed] ++ hostileInner ++ [feed]
    ++ utf8Bytes "\x7d"

/-- What JSON says of the plaintext and of its lines. -/
def hostileParse (input : Bytes) : Option Value :=
  let inner := Value.object [("body", .object [("pair", .bool true)]),
    ("type", .string packetTypePair)]
  if input = hostile then
    some (.object [("type", .string packetTypeHeartbeat), ("x", inner)])
  else if input = hostileInner ++ [feed] then some inner
  else none

def hostileSteps : List LinkStep :=
  .packet hostile false :: List.replicate (hostile.length + 1) (.read true)

/-- The gate let a heartbeat in, and the reader hands over a request to pair. -/
theorem hidden_packet_read : ∃ w, runFrom (step hostileParse) {} hostileSteps = some w ∧
    w.inbound = [] ∧ w.passed.map NetworkPacket.packetType = [packetTypeHeartbeat] ∧
    w.handed.map NetworkPacket.packetType = [packetTypePair] ∧
    w.handed.all (allowedOnRelay false) = false := by
  have hany : (runFrom (step hostileParse) {} hostileSteps).any (fun w =>
      w.inbound.isEmpty && (w.passed.map NetworkPacket.packetType == [packetTypeHeartbeat] &&
        (w.handed.map NetworkPacket.packetType == [packetTypePair] &&
          !w.handed.all (allowedOnRelay false)))) = true := by
    decide +kernel
  obtain ⟨w, hw, hcheck⟩ := (Option.any_eq_true _ _).mp hany
  rw [Bool.and_eq_true, Bool.and_eq_true, Bool.and_eq_true, List.isEmpty_iff, beq_iff_eq,
    beq_iff_eq, Bool.not_eq_true'] at hcheck
  exact ⟨w, hw, hcheck⟩

/-- Neither side holds of a hidden packet. -/
theorem gate_and_reader_hidden : ∃ w, runFrom (step hostileParse) {} hostileSteps = some w ∧
    (Always (step hostileParse) (Exact hostileParse) {} hostileSteps ↔
      StepsMeet (step hostileParse) (Whole hostileParse) {} hostileSteps) ∧
    (w.Exact hostileParse → w.handed <+: w.passed ∧ (w.inbound = [] → w.handed = w.passed) ∧
      ∀ requested, ∀ packet ∈ w.handed, allowedOnRelay requested packet = true) := by
  obtain ⟨w, hw⟩ := Option.isSome_iff_exists.mp
    (by decide +kernel : (runFrom (step hostileParse) {} hostileSteps).isSome = true)
  exact ⟨w, hw, gate_and_reader hw⟩

end Link

end DeskLink.RelayLink
