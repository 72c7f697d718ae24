import Mathlib.Data.List.Basic
import Meridian.Cpp.WsFrames

/-!
# `WsClient::recv_msg`: fragmented messages

Model of `recv_msg` of `exchange/cpp/src/net_utils.cpp` (312-325) over `recv_frame` (360-419, in
`WsFrames`). What is still to be received is a list of byte strings: the wait for the first byte of
a frame times out where one of them ends, and the bytes of the next one are there for a later call.
`assembled` and `final_opcode` are locals of `recv_frame`, so a control frame or a timeout between
two fragments drops the part received so far, and the rest ends with the opcode -1.

Results:
* `receive_chunks`: successive calls of `recv_msg` on the bytes of frames and timeouts do what
  `hear` says frame by frame;
* `reassembled`: a fragmented message is delivered once, with every PING answered, if and only if no
  frame of it is too long for `SSL_read` and it is empty or has nothing between its fragments.
-/

namespace Meridian.WsMessages

open GateFrames (OP_TEXT OP_PONG)
open WsFrames

/-! ## `recv_msg` -/

/-- What is still to be received, cut where a wait for a frame times out. -/
abbrev Input := List (List UInt8)

/-- The frames sent in answer, each the opcode and the payload that `send_frame` is given. -/
abbrev Sent := List (UInt8 × List UInt8)

/-- What one call of `recv_msg` does: its result, `none` where it throws, the frames it sends and
what is left to be received. -/
structure Call where
  result : Option (List UInt8)
  sent : Sent
  input : Input

/-- One call of `recv_msg` whose first bytes are `stream`. -/
def recv_msg_on (later : Input) (stream : List UInt8) : Call :=
  match h : recv_frame stream with
  | .timeout => ⟨some [], [], later⟩
  | .throws => ⟨none, [], later⟩
  | .frame op payload rest =>
    have : rest.length < stream.length := length_of_recv_loop _ _ _ h
    if op < 0 then ⟨some [], [], rest :: later⟩
    else if op = OP_PING.toNat then
      let call := recv_msg_on later rest
      { call with sent := (OP_PONG, payload) :: call.sent }
    else if op = OP_PONG.toNat then recv_msg_on later rest
    else if op = OP_CLOSE.toNat then ⟨none, [], rest :: later⟩
    else if op = OP_TEXT.toNat ∨ op = OP_BINARY.toNat then ⟨some payload, [], rest :: later⟩
    else recv_msg_on later rest
termination_by stream.length

/-- `recv_msg` (`net_utils.cpp:312-325`). -/
def recv_msg : Input → Call
  | [] => ⟨some [], [], []⟩
  | stream :: later => recv_msg_on later stream

/-- How much is left to be received. -/
def size : Input → ℕ
  | [] => 0
  | stream :: later => stream.length + 1 + size later

theorem size_cons (stream : List UInt8) (later : Input) :
    size (stream :: later) = stream.length + 1 + size later := rfl

theorem size_recv_msg_on (later : Input) (stream : List UInt8) :
    size (recv_msg_on later stream).input < size (stream :: later) := by
  rw [size_cons]
  fun_induction recv_msg_on later stream with
  | case1 | case2 => simp only; omega
  | case3 | case6 | case7 => simp only [size_cons]; omega
  | case4 =>
    rename_i ih
    exact Nat.lt_trans ih (by omega)
  | case5 | case8 =>
    rename_i ih
    omega

/-- What successive calls do: their results in order and all frames sent. -/
structure Calls where
  results : List (Option (List UInt8))
  sent : Sent

/-- One more call before these. -/
def Calls.after (calls : Calls) (result : Option (List UInt8)) : Calls :=
  { calls with results := result :: calls.results }

/-- One more frame sent before these calls. -/
def Calls.answer (calls : Calls) (frame : UInt8 × List UInt8) : Calls :=
  { calls with sent := frame :: calls.sent }

/-- Calls of `recv_msg` until one throws or all there is has been received. -/
def receive (input : Input) : Calls :=
  match input with
  | [] => ⟨[], []⟩
  | stream :: later =>
    let call := recv_msg_on later stream
    have : size call.input < size (stream :: later) := size_recv_msg_on later stream
    match call.result with
    | none => ⟨[none], call.sent⟩
    | some payload =>
      let calls := receive call.input
      ⟨some payload :: calls.results, call.sent ++ calls.sent⟩
termination_by size input

/-! ## Calls on what `recv_frame` returns -/

/-- The calls that follow one of `recv_frame`. -/
def receive_on (later : Input) : Received → Calls
  | .timeout => (receive later).after (some [])
  | .throws => ⟨[none], []⟩
  | .frame op payload rest =>
    let calls := receive (rest :: later)
    if op < 0 then calls.after (some [])
    else if op = OP_PING.toNat then calls.answer (OP_PONG, payload)
    else if op = OP_PONG.toNat then calls
    else if op = OP_CLOSE.toNat then ⟨[none], []⟩
    else if op = OP_TEXT.toNat ∨ op = OP_BINARY.toNat then calls.after (some payload)
    else calls

theorem receive_cons (stream : List UInt8) (later : Input) :
    receive (stream :: later) = receive_on later (recv_frame stream) := by
  rw [receive]
  generalize hcall : recv_msg_on later stream = call
  rw [recv_msg_on] at hcall
  split at hcall
  · rename_i h
    subst hcall
    rw [h]
    rfl
  · rename_i h
    subst hcall
    rw [h]
    rfl
  · rename_i op payload rest h
    rw [h, receive_on]
    -- the calls after a frame that `recv_msg` goes on from
    have hgo : receive (rest :: later) = match (recv_msg_on later rest).result with
        | none => ⟨[none], (recv_msg_on later rest).sent⟩
        | some payload => ⟨some payload :: (receive (recv_msg_on later rest).input).results,
            (recv_msg_on later rest).sent ++ (receive (recv_msg_on later rest).input).sent⟩ := by
      rw [receive]
    by_cases hneg : op < 0
    · simp only [if_pos hneg] at hcall ⊢
      subst hcall
      rfl
    by_cases hping : op = OP_PING.toNat
    · simp only [if_neg hneg, if_pos hping] at hcall ⊢
      subst hcall
      rw [hgo]
      simp only
      cases (recv_msg_on later rest).result with
      | none => rfl
      | some payload => rfl
    by_cases hpong : op = OP_PONG.toNat
    · simp only [if_neg hneg, if_neg hping, if_pos hpong] at hcall ⊢
      subst hcall
      exact hgo.symm
    by_cases hclose : op = OP_CLOSE.toNat
    · simp only [if_neg hneg, if_neg hping, if_neg hpong, if_pos hclose] at hcall ⊢
      subst hcall
      rfl
    by_cases hdata : op = OP_TEXT.toNat ∨ op = OP_BINARY.toNat
    · simp only [if_neg hneg, if_neg hping, if_neg hpong, if_neg hclose, if_pos hdata] at hcall ⊢
      subst hcall
      rfl
    · simp only [if_neg hneg, if_neg hping, if_neg hpong, if_neg hclose, if_neg hdata] at hcall ⊢
      subst hcall
      exact hgo.symm

/-! ## Frames and timeouts -/

/-- The payload of a frame, masked or not. The top bit of a length is 0. -/
structure Body where
  payload : List UInt8
  mask : Option (Fin 4 → UInt8)
  length : payload.length < 2 ^ 63

/-- `SSL_read` can be asked for the payload. -/
def Body.Fits (b : Body) : Prop := b.payload.length < 2 ^ 31

instance (b : Body) : Decidable b.Fits := inferInstanceAs (Decidable (_ < _))

/-- What may come between two fragments. -/
inductive Between where
  | timeout
  | ping (b : Body)
  | pong (b : Body)

/-- What a receiver of one text message sees, in order. -/
inductive Item where
  | between (g : Between)
  | fragment (first fin : Bool) (b : Body)

/-- The frame of a fragment: TEXT for the first one, CONTINUATION for the others. -/
def fragmentWire (first fin : Bool) (b : Body) : Wire :=
  ⟨fin, if first then OP_TEXT else OP_CONTINUATION, b.payload, b.mask⟩

/-- Bytes before all that is still to be received. -/
def prepend (l : List UInt8) : Input → Input
  | [] => [l]
  | stream :: later => (l ++ stream) :: later

/-- The bytes of these frames, cut at the timeouts. -/
def chunks : List Item → Input
  | [] => [[]]
  | .between .timeout :: items => [] :: chunks items
  | .between (.ping b) :: items =>
    prepend (⟨true, OP_PING, b.payload, b.mask⟩ : Wire).bytes (chunks items)
  | .between (.pong b) :: items =>
    prepend (⟨true, OP_PONG, b.payload, b.mask⟩ : Wire).bytes (chunks items)
  | .fragment first fin b :: items => prepend (fragmentWire first fin b).bytes (chunks items)

/-- What the calls return and send, frame by frame: `recv_frame` has assembled these bytes, and
`final_opcode` is TEXT or still -1. -/
def hear (assembled : List UInt8) (text : Bool) : List Item → Calls
  | [] => ⟨[some []], []⟩
  | .between .timeout :: items => (hear [] false items).after (some [])
  | .between (.ping b) :: items =>
    if b.Fits then (hear [] false items).answer (OP_PONG, b.payload) else ⟨[none], []⟩
  | .between (.pong b) :: items => if b.Fits then hear [] false items else ⟨[none], []⟩
  | .fragment first fin b :: items =>
    if b.Fits then
      if fin then
        (hear [] false items).after (some (if first || text then assembled ++ b.payload else []))
      else hear (assembled ++ b.payload) (first || text) items
    else ⟨[none], []⟩

/-- `final_opcode`. -/
def finalOpcode (text : Bool) : ℤ := if text then OP_TEXT.toNat else -1

theorem chunks_cons (items : List Item) : ∃ stream later, chunks items = stream :: later := by
  have hprepend : ∀ l input, ∃ stream later, prepend l input = stream :: later := by
    intro l input
    cases input with
    | nil => exact ⟨_, _, rfl⟩
    | cons stream later => exact ⟨_, _, rfl⟩
  cases items with
  | nil => exact ⟨_, _, rfl⟩
  | cons item items =>
    cases item with
    | between g =>
      cases g with
      | timeout => exact ⟨_, _, rfl⟩
      | ping b => exact hprepend _ _
      | pong b => exact hprepend _ _
    | fragment first fin b => exact hprepend _ _

theorem wire_ne_nil (w : Wire) (rest : List UInt8) : w.bytes ++ rest ≠ [] := by
  rw [Wire.bytes]
  exact List.cons_ne_nil _ _

/-- One round of `recv_frame`'s loop on a frame. -/
theorem recv_loop_wire {w : Wire} (hop : w.opcode < 16) (hlen : w.payload.length < 2 ^ 64)
    (assembled : List UInt8) (final_opcode : ℤ) (rest : List UInt8) :
    recv_loop assembled final_opcode (w.bytes ++ rest) =
      if w.payload.length < 2 ^ 31 then
        if w.opcode = OP_PING ∨ w.opcode = OP_PONG ∨ w.opcode = OP_CLOSE then
          .frame w.opcode.toNat w.payload rest
        else
          let final_opcode :=
            if w.opcode ≠ OP_CONTINUATION then (w.opcode.toNat : ℤ) else final_opcode
          if w.fin then .frame final_opcode (assembled ++ w.payload) rest
          else recv_loop (assembled ++ w.payload) final_opcode rest
      else .throws := by
  have hread := read_fragment_wire hop hlen rest
  rw [recv_loop, if_neg (wire_ne_nil w rest)]
  by_cases hfits : w.payload.length < 2 ^ 31
  · rw [if_pos hfits] at hread ⊢
    split
    · rename_i hnone
      rw [hread] at hnone
      cases hnone
    · rename_i f left hsome
      rw [hread] at hsome
      obtain ⟨rfl, rfl⟩ := Prod.mk.inj (Option.some.inj hsome)
      rfl
  · rw [if_neg hfits] at hread ⊢
    split
    · rfl
    · rename_i f left hsome
      rw [hread] at hsome
      cases hsome

theorem receive_on_control (later : Input) (payload rest : List UInt8) :
    receive_on later (.frame OP_PING.toNat payload rest) =
      (receive (rest :: later)).answer (OP_PONG, payload) ∧
    receive_on later (.frame OP_PONG.toNat payload rest) = receive (rest :: later) := ⟨rfl, rfl⟩

theorem receive_on_data (text : Bool) (later : Input) (payload rest : List UInt8) :
    receive_on later (.frame (finalOpcode text) payload rest) =
      (receive (rest :: later)).after (some (if text then payload else [])) := by
  cases text
  · rfl
  · rfl

/-- The opcode after a fragment. -/
theorem finalOpcode_or (first text : Bool) :
    (if (if first then OP_TEXT else OP_CONTINUATION) ≠ OP_CONTINUATION then
      (((if first then OP_TEXT else OP_CONTINUATION).toNat : ℕ) : ℤ) else finalOpcode text) =
      finalOpcode (first || text) := by
  cases first
  · rfl
  · rfl

theorem prepend_eq {input : Input} {stream : List UInt8} {later : Input}
    (h : input = stream :: later) (l : List UInt8) :
    prepend l input = (l ++ stream) :: later := by
  rw [h, prepend]

theorem Body.length_lt (b : Body) : b.payload.length < 2 ^ 64 :=
  Nat.lt_trans b.length (by omega)

/-- A control frame ends the call of `recv_frame`. -/
theorem recv_loop_control {opcode : UInt8} (h : opcode = OP_PING ∨ opcode = OP_PONG) (b : Body)
    (assembled : List UInt8) (final_opcode : ℤ) (rest : List UInt8) :
    recv_loop assembled final_opcode ((⟨true, opcode, b.payload, b.mask⟩ : Wire).bytes ++ rest) =
      if b.Fits then .frame opcode.toNat b.payload rest else .throws := by
  have hop : opcode < 16 := by
    rcases h with rfl | rfl
    · decide
    · decide
  have hcontrol : opcode = OP_PING ∨ opcode = OP_PONG ∨ opcode = OP_CLOSE := by
    rcases h with h | h
    · exact Or.inl h
    · exact Or.inr (Or.inl h)
  rw [recv_loop_wire hop b.length_lt, if_pos hcontrol]
  rfl

/-- A fragment is appended, and the last one ends the call. -/
theorem recv_loop_fragment (first fin : Bool) (b : Body) (assembled : List UInt8) (text : Bool)
    (rest : List UInt8) :
    recv_loop assembled (finalOpcode text) ((fragmentWire first fin b).bytes ++ rest) =
      if b.Fits then
        if fin then .frame (finalOpcode (first || text)) (assembled ++ b.payload) rest
        else recv_loop (assembled ++ b.payload) (finalOpcode (first || text)) rest
      else .throws := by
  have hop : (if first then OP_TEXT else OP_CONTINUATION) < 16 ∧
      ¬((if first then OP_TEXT else OP_CONTINUATION) = OP_PING ∨
        (if first then OP_TEXT else OP_CONTINUATION) = OP_PONG ∨
        (if first then OP_TEXT else OP_CONTINUATION) = OP_CLOSE) := by
    cases first
    · decide
    · decide
  rw [fragmentWire, recv_loop_wire hop.1 b.length_lt, if_neg hop.2]
  simp only [finalOpcode_or]
  rfl

/-- **Bytes to frames**: what `recv_frame` returns at any point of its loop, and the calls after it,
are read off the frames and timeouts that are left. -/
theorem receive_on_chunks {items : List Item} : ∀ (assembled : List UInt8) (text : Bool)
    {stream : List UInt8} {later : Input}, chunks items = stream :: later →
    receive_on later (recv_loop assembled (finalOpcode text) stream) =
      hear assembled text items := by
  induction items with
  | nil =>
    intro assembled text stream later h
    obtain ⟨rfl, rfl⟩ := List.cons.inj h
    rw [recv_loop, if_pos rfl, receive_on, receive]
    rfl
  | cons item items ih =>
    intro assembled text stream later h
    obtain ⟨stream', later', hchunks⟩ := chunks_cons items
    -- the next call of `recv_frame` starts anew
    have hnext : receive (stream' :: later') = hear [] false items := by
      rw [receive_cons, recv_frame]
      exact ih [] false hchunks
    cases item with
    | between g =>
      cases g with
      | timeout =>
        obtain ⟨rfl, rfl⟩ := List.cons.inj h
        rw [recv_loop, if_pos rfl, receive_on, hchunks, hnext, hear]
      | ping b =>
        obtain ⟨rfl, rfl⟩ := List.cons.inj ((prepend_eq hchunks _).symm.trans h)
        rw [recv_loop_control (Or.inl rfl), hear]
        by_cases hfits : b.Fits
        · rw [if_pos hfits, if_pos hfits, (receive_on_control ..).1, hnext]
        · rw [if_neg hfits, if_neg hfits, receive_on]
      | pong b =>
        obtain ⟨rfl, rfl⟩ := List.cons.inj ((prepend_eq hchunks _).symm.trans h)
        rw [recv_loop_control (Or.inr rfl), hear]
        by_cases hfits : b.Fits
        · rw [if_pos hfits, if_pos hfits, (receive_on_control ..).2, hnext]
        · rw [if_neg hfits, if_neg hfits, receive_on]
    | fragment first fin b =>
      obtain ⟨rfl, rfl⟩ := List.cons.inj ((prepend_eq hchunks _).symm.trans h)
      rw [recv_loop_fragment, hear]
      by_cases hfits : b.Fits
      · rw [if_pos hfits, if_pos hfits]
        cases fin with
        | true =>
          simp only [if_true]
          rw [receive_on_data, hnext]
        | false =>
          simp only [Bool.false_eq_true, if_false]
          exact ih _ _ hchunks
      · rw [if_neg hfits, if_neg hfits, receive_on]

/-- **Successive calls on frames and timeouts**: on the chunks of these items they return what
`hear` says of the items. -/
theorem receive_chunks (items : List Item) : receive (chunks items) = hear [] false items := by
  obtain ⟨stream, later, h⟩ := chunks_cons items
  rw [h, receive_cons, recv_frame]
  exact receive_on_chunks [] false h

/-! ## A fragmented message -/

/-- A text message in fragments, each but the first with what comes before it. -/
structure Message where
  first : Body
  rest : List (List Between × Body)

/-- The fragments after the first one; FIN on the last. -/
def continued : List (List Between × Body) → List Item
  | [] => []
  | (gap, b) :: rest => gap.map .between ++ .fragment false rest.isEmpty b :: continued rest

/-- All there is to see of a message. -/
def Message.items (m : Message) : List Item :=
  .fragment true m.rest.isEmpty m.first :: continued m.rest

/-- The payload of these fragments. -/
def payloads (rest : List (List Between × Body)) : List UInt8 := rest.flatMap fun p => p.2.payload

/-- The whole payload. -/
def Message.payload (m : Message) : List UInt8 := m.first.payload ++ payloads m.rest

/-- The payload of a PING. -/
def Between.pingPayload : Between → Option (List UInt8)
  | .ping b => some b.payload
  | _ => none

/-- The payload of a frame. -/
def Between.frameBody : Between → Option Body
  | .timeout => none
  | .ping b => some b
  | .pong b => some b

/-- The payloads of the PINGs in order. -/
def pings (rest : List (List Between × Body)) : List (List UInt8) :=
  rest.flatMap fun p => p.1.filterMap Between.pingPayload

/-- The bodies of all frames after the first. -/
def bodies (rest : List (List Between × Body)) : List Body :=
  rest.flatMap fun p => p.1.filterMap Between.frameBody ++ [p.2]

/-- What the calls on the whole of a message do. -/
def Message.received (m : Message) : Calls := receive (chunks m.items)

/-- **Reassembled**: no call throws, the payload is returned once among empty results (which an
empty payload is one of), and every PING is answered with its own payload. -/
structure Message.Reassembled (m : Message) : Prop where
  returned : ∃ results : List (List UInt8), m.received.results = results.map some ∧
    results.filter (· ≠ []) = [m.payload].filter (· ≠ [])
  answered : m.received.sent = (pings m.rest).map fun payload => (OP_PONG, payload)

/-- All results are these, and these PINGs are answered. -/
structure Delivers (results : List (List UInt8)) (pings : List (List UInt8)) (calls : Calls) :
    Prop where
  results : ∃ all : List (List UInt8), calls.results = all.map some ∧ all.filter (· ≠ []) = results
  sent : calls.sent = pings.map fun payload => (OP_PONG, payload)

theorem Delivers.after {results pings : List (List UInt8)} {calls : Calls}
    (h : Delivers results pings calls) (payload : List UInt8) :
    Delivers ([payload].filter (· ≠ []) ++ results) pings (calls.after (some payload)) := by
  obtain ⟨all, hall, hfilter⟩ := h.results
  refine ⟨⟨payload :: all, ?_, ?_⟩, h.sent⟩
  · rw [Calls.after, hall, List.map_cons]
  · rw [← hfilter, ← List.filter_append]
    rfl

theorem Delivers.answer {results pings : List (List UInt8)} {calls : Calls}
    (h : Delivers results pings calls) (payload : List UInt8) :
    Delivers results (payload :: pings) (calls.answer (OP_PONG, payload)) := by
  refine ⟨h.results, ?_⟩
  rw [Calls.answer, h.sent, List.map_cons]

/-- Between two fragments nothing is returned, and the part received so far is dropped. -/
theorem hear_gap {gap : List Between} (hfits : ∀ b ∈ gap.filterMap Between.frameBody, b.Fits)
    {items : List Item} {results pings : List (List UInt8)} (hgap : gap ≠ [])
    (h : Delivers results pings (hear [] false items)) (assembled : List UInt8) (text : Bool) :
    Delivers results (gap.filterMap Between.pingPayload ++ pings)
      (hear assembled text (gap.map .between ++ items)) := by
  induction gap generalizing assembled text with
  | nil => exact absurd rfl hgap
  | cons g gap ih =>
    -- the rest of the gap starts a new call
    have hrest : (∀ b ∈ gap.filterMap Between.frameBody, b.Fits) →
        Delivers results (gap.filterMap Between.pingPayload ++ pings)
          (hear [] false (gap.map .between ++ items)) := by
      intro hfits
      by_cases hnil : gap = []
      · rw [hnil]
        exact h
      · exact ih hfits hnil [] false
    cases g with
    | timeout => exact (hrest hfits).after []
    | ping b =>
      have hb : b.Fits := hfits b List.mem_cons_self
      simp only [List.map_cons, List.cons_append, hear, if_pos hb]
      exact (hrest fun b hb => hfits b (List.mem_cons_of_mem _ hb)).answer b.payload
    | pong b =>
      have hb : b.Fits := hfits b List.mem_cons_self
      simp only [List.map_cons, List.cons_append, hear, if_pos hb]
      exact hrest fun b hb => hfits b (List.mem_cons_of_mem _ hb)

theorem bodies_cons (gap : List Between) (b : Body) (rest : List (List Between × Body)) :
    bodies ((gap, b) :: rest) = gap.filterMap Between.frameBody ++ b :: bodies rest := by
  rw [bodies, List.flatMap_cons, List.append_assoc]
  rfl

/-- The end of the input: one more call times out. -/
theorem hear_nil (assembled : List UInt8) (text : Bool) :
    Delivers [] [] (hear assembled text []) := ⟨⟨[[]], rfl, rfl⟩, rfl⟩

/-- **What is left after a loss** is received without the opcode, and returned as empty. -/
theorem hear_lost {rest : List (List Between × Body)} (hfits : ∀ b ∈ bodies rest, b.Fits)
    (assembled : List UInt8) :
    Delivers [] (pings rest) (hear assembled false (continued rest)) := by
  induction rest generalizing assembled with
  | nil => exact hear_nil assembled false
  | cons p rest ih =>
    obtain ⟨gap, b⟩ := p
    rw [bodies_cons] at hfits
    have hb : b.Fits := hfits b (List.mem_append_right _ List.mem_cons_self)
    have hrest : ∀ b ∈ bodies rest, b.Fits := fun b hb =>
      hfits b (List.mem_append_right _ (List.mem_cons_of_mem _ hb))
    have hitem : ∀ assembled, Delivers [] (pings rest)
        (hear assembled false (.fragment false rest.isEmpty b :: continued rest)) := by
      intro assembled
      rw [hear, if_pos hb]
      cases hlast : rest.isEmpty with
      | true => exact (ih hrest []).after []
      | false => exact ih hrest _
    by_cases hgap : gap = []
    · subst hgap
      exact hitem assembled
    · exact hear_gap (fun b hb => hfits b (List.mem_append_left _ hb)) hgap (hitem []) assembled
        false

/-- **A gap loses the message**: what comes between two fragments ends the call of `recv_frame`, and
with it go the fragments that it had put together. -/
theorem hear_interrupted {rest : List (List Between × Body)} (hfits : ∀ b ∈ bodies rest, b.Fits)
    (hgap : ∃ p ∈ rest, p.1 ≠ []) (assembled : List UInt8) :
    Delivers [] (pings rest) (hear assembled true (continued rest)) := by
  induction rest generalizing assembled with
  | nil =>
    obtain ⟨p, hp, -⟩ := hgap
    exact absurd hp List.not_mem_nil
  | cons p rest ih =>
    obtain ⟨gap, b⟩ := p
    have hlost := hear_lost hfits
    rw [bodies_cons] at hfits
    have hb : b.Fits := hfits b (List.mem_append_right _ List.mem_cons_self)
    have hrest : ∀ b ∈ bodies rest, b.Fits := fun b hb =>
      hfits b (List.mem_append_right _ (List.mem_cons_of_mem _ hb))
    by_cases hnil : gap = []
    · subst hnil
      have hlater : ∃ p ∈ rest, p.1 ≠ [] := by
        obtain ⟨p, hp, hne⟩ := hgap
        rcases List.mem_cons.mp hp with rfl | hp
        · exact absurd rfl hne
        · exact ⟨p, hp, hne⟩
      have hmore : rest.isEmpty = false := by
        obtain ⟨p, hp, -⟩ := hlater
        exact List.isEmpty_eq_false_iff.mpr (List.ne_nil_of_mem hp)
      simp only [continued, List.map_nil, List.nil_append, hear, if_pos hb, hmore,
        Bool.false_eq_true, if_false]
      exact ih hrest hlater _
    · have hdropped : ∀ b' ∈ bodies (([], b) :: rest), b'.Fits := by
        intro b' hb'
        rcases List.mem_cons.mp hb' with rfl | hb'
        · exact hb
        · exact hrest b' hb'
      exact hear_gap (fun b hb => hfits b (List.mem_append_left _ hb)) hnil
        (hear_lost hdropped []) assembled true

/-- **Without gaps** the fragments are put together, in one call of `recv_frame`, behind what it has
already. -/
theorem hear_whole {rest : List (List Between × Body)} (hfits : ∀ b ∈ bodies rest, b.Fits)
    (hgaps : ∀ p ∈ rest, p.1 = []) (hne : rest ≠ []) (assembled : List UInt8) :
    Delivers ([assembled ++ payloads rest].filter (· ≠ [])) (pings rest)
      (hear assembled true (continued rest)) := by
  induction rest generalizing assembled with
  | nil => exact absurd rfl hne
  | cons p rest ih =>
    obtain ⟨gap, b⟩ := p
    obtain rfl : gap = [] := hgaps (gap, b) List.mem_cons_self
    have hb : b.Fits := hfits b List.mem_cons_self
    simp only [continued, List.map_nil, List.nil_append, hear, if_pos hb]
    cases rest with
    | nil =>
      have hpayloads : payloads [([], b)] = b.payload := List.append_nil _
      have hlast := (hear_nil [] false).after (assembled ++ b.payload)
      rw [List.append_nil] at hlast
      rw [hpayloads]
      exact hlast
    | cons q rest =>
      have hpayloads : payloads (([], b) :: q :: rest) = b.payload ++ payloads (q :: rest) := rfl
      rw [hpayloads, ← List.append_assoc]
      exact ih (fun b hb => hfits b (List.mem_cons_of_mem _ hb))
        (fun p hp => hgaps p (List.mem_cons_of_mem _ hp)) (List.cons_ne_nil _ _) _

/-- The body of a frame. -/
def Item.frameBody : Item → Option Body
  | .between g => g.frameBody
  | .fragment _ _ b => some b

theorem filterMap_continued (rest : List (List Between × Body)) :
    (continued rest).filterMap Item.frameBody = bodies rest := by
  induction rest with
  | nil => rfl
  | cons p rest ih =>
    obtain ⟨gap, b⟩ := p
    rw [continued, List.filterMap_append, List.filterMap_map, bodies_cons, ← ih]
    rfl

/-- **Too long a frame** makes some call throw: `SSL_read` cannot be asked for so many bytes. -/
theorem hear_long {items : List Item} (h : ∃ b ∈ items.filterMap Item.frameBody, ¬b.Fits)
    (assembled : List UInt8) (text : Bool) : none ∈ (hear assembled text items).results := by
  induction items generalizing assembled text with
  | nil =>
    obtain ⟨b, hb, -⟩ := h
    exact absurd hb List.not_mem_nil
  | cons item items ih =>
    obtain ⟨b, hb, hlong⟩ := h
    -- either this frame is too long or the calls go on to it
    have hlater : ∀ b', item.frameBody = some b' → b'.Fits →
        ∃ b ∈ items.filterMap Item.frameBody, ¬b.Fits := by
      intro b' hb' hfits
      rw [List.filterMap_cons_some hb'] at hb
      rcases List.mem_cons.mp hb with rfl | hb
      · exact absurd hfits hlong
      · exact ⟨b, hb, hlong⟩
    cases item with
    | between g =>
      cases g with
      | timeout => exact List.mem_cons_of_mem _ (ih ⟨b, hb, hlong⟩ [] false)
      | ping b' =>
        rw [hear]
        by_cases hfits : b'.Fits
        · rw [if_pos hfits]
          exact ih (hlater b' rfl hfits) [] false
        · rw [if_neg hfits]
          exact List.mem_cons_self
      | pong b' =>
        rw [hear]
        by_cases hfits : b'.Fits
        · rw [if_pos hfits]
          exact ih (hlater b' rfl hfits) [] false
        · rw [if_neg hfits]
          exact List.mem_cons_self
    | fragment first fin b' =>
      rw [hear]
      by_cases hfits : b'.Fits
      · rw [if_pos hfits]
        cases fin with
        | true => exact List.mem_cons_of_mem _ (ih (hlater b' rfl hfits) [] false)
        | false => exact ih (hlater b' rfl hfits) _ _
      · rw [if_neg hfits]
        exact List.mem_cons_self

theorem received_eq (m : Message) : m.received = hear [] false m.items := receive_chunks m.items

/-- The calls on a message of which all frames can be read. -/
theorem received_of_fits {m : Message} (hfirst : m.first.Fits)
    (hfits : ∀ b ∈ bodies m.rest, b.Fits) :
    ((∀ p ∈ m.rest, p.1 = []) →
      Delivers ([m.payload].filter (· ≠ [])) (pings m.rest) m.received) ∧
    ((∃ p ∈ m.rest, p.1 ≠ []) → Delivers [] (pings m.rest) m.received) := by
  obtain ⟨first, rest⟩ := m
  simp only at hfirst hfits ⊢
  rw [received_eq, Message.items, hear, if_pos hfirst, Message.payload]
  refine ⟨fun hgaps => ?_, fun hgap => ?_⟩
  · cases rest with
    | nil =>
      have hpayloads : payloads [] = [] := rfl
      have honly := (hear_nil [] false).after first.payload
      rw [List.append_nil] at honly
      rw [hpayloads, List.append_nil]
      exact honly
    | cons p rest => exact hear_whole hfits hgaps (List.cons_ne_nil _ _) _
  · cases rest with
    | nil =>
      obtain ⟨p, hp, -⟩ := hgap
      exact absurd hp List.not_mem_nil
    | cons p rest => exact hear_interrupted hfits hgap _

/-- **Fragmented messages**: a message is reassembled if and only if `SSL_read` can be asked for the
payload of each of its frames and it is empty or nothing comes between its fragments. -/
theorem reassembled (m : Message) : m.Reassembled ↔
    (m.first.payload.length < 2 ^ 31 ∧ ∀ b ∈ bodies m.rest, b.payload.length < 2 ^ 31) ∧
      (m.payload = [] ∨ ∀ p ∈ m.rest, p.1 = []) := by
  refine ⟨fun h => ?_, fun h => ?_⟩
  · obtain ⟨results, hresults, hfilter⟩ := h.returned
    have hall : ∀ b ∈ m.items.filterMap Item.frameBody, b.Fits := by
      by_contra hlong
      push Not at hlong
      have hnone := hear_long hlong [] false
      rw [← received_eq, hresults] at hnone
      obtain ⟨payload, -, hpayload⟩ := List.mem_map.mp hnone
      cases hpayload
    have hitems : m.items.filterMap Item.frameBody = m.first :: bodies m.rest := by
      rw [← filterMap_continued]
      rfl
    rw [hitems] at hall
    have hfirst : m.first.Fits := hall _ List.mem_cons_self
    have hfits : ∀ b ∈ bodies m.rest, b.Fits := fun b hb => hall b (List.mem_cons_of_mem _ hb)
    refine ⟨⟨hfirst, hfits⟩, ?_⟩
    by_contra hlost
    push Not at hlost
    obtain ⟨hpayload, hgap⟩ := hlost
    obtain ⟨all, hall, hempty⟩ := ((received_of_fits hfirst hfits).2 hgap).results
    have heq : all = results := (List.map_inj_right fun _ _ => Option.some.inj).mp
      (hall.symm.trans hresults)
    rw [← heq, hempty, List.filter_cons_of_pos (by simpa using hpayload)] at hfilter
    cases hfilter
  · obtain ⟨⟨hfirst, hfits⟩, hwhole⟩ := h
    by_cases hgaps : ∀ p ∈ m.rest, p.1 = []
    · obtain ⟨hresults, hsent⟩ := (received_of_fits hfirst hfits).1 hgaps
      exact ⟨hresults, hsent⟩
    · have hpayload : m.payload = [] := hwhole.resolve_right hgaps
      push Not at hgaps
      obtain ⟨⟨all, hall, hempty⟩, hsent⟩ := (received_of_fits hfirst hfits).2 hgaps
      refine ⟨⟨all, hall, ?_⟩, hsent⟩
      rw [hempty, hpayload]
      rfl

/-- "ab" and "cd" in two fragments with a PING between them. -/
def interrupted : Message :=
  { first := ⟨[97, 98], none, by decide⟩
    rest := [([.ping ⟨[1], none, by decide⟩], ⟨[99, 100], none, by decide⟩)] }

/-- The PING is answered, and neither "abcd" nor any part of it is returned. -/
theorem interrupted_lost : interrupted.received.results = [some [], some []] ∧
    interrupted.received.sent = [(OP_PONG, [1])] ∧ ¬interrupted.Reassembled := by
  have hreceived : interrupted.received = ⟨[some [], some []], [(OP_PONG, [1])]⟩ := by
    rw [received_eq]
    rfl
  rw [hreceived]
  refine ⟨rfl, rfl, fun h => ?_⟩
  obtain ⟨results, hresults, hfilter⟩ := h.returned
  rw [hreceived] at hresults
  have heq : [[], []] = results := (List.map_inj_right fun _ _ => Option.some.inj).mp hresults
  rw [← heq] at hfilter
  revert hfilter
  decide

end Meridian.WsMessages
