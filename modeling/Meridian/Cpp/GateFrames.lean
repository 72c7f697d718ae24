import Mathlib.Logic.Function.Basic
import Mathlib.Tactic.Common
import Meridian.Lib.Run

/-!
# `GateConnector`: WebSocket frames on one socket

Model of the sends on one connection of `exchange/cpp/src/gate_connector.cpp`. `send_frame`
(`net_utils.cpp:327-358`) writes a frame in two calls of `write_all`, its header and then its masked
payload. Callers of `ws_api_request` hold `ws_send_mutex_` around it (`gate_connector.cpp:307-313`);
the io thread's subscriptions and heartbeats (`gate_connector.cpp:481-539`) and the PONG that
`recv_msg` answers to a PING (`net_utils.cpp:312-325`) take no lock.

Results:
* `frames_interleave`: a subscription sent between a caller's header and its payload leaves a stream
  that is no sequence of frames;
* `frames_whole`: in every run in which the io thread and the callers begin no frame inside one
  another's, the stream is the frames sent, one after the other.

Out of scope: a `write_all` that throws in the middle of a frame, on a socket that is broken then,
and how the masking keys are drawn (they are any bytes here).
-/

namespace Meridian.GateFrames

open Meridian.Run

/-! ## Frames -/

/-- What `send_frame` is given, with the random masking key. -/
structure Frame where
  opcode : UInt8
  payload : List UInt8
  mask : Fin 4 → UInt8

/-- `OP_TEXT`. -/
def OP_TEXT : UInt8 := 0x1

/-- `OP_PONG`. -/
def OP_PONG : UInt8 := 0xA

/-- The length bytes of a header, the MASK bit set. -/
def lengthBytes (len : ℕ) : List UInt8 :=
  if len < 126 then [0x80 ||| UInt8.ofNat len]
  else if len < 65536 then [0x80 ||| 126, UInt8.ofNat (len >>> 8), UInt8.ofNat len]
  else (0x80 ||| 127) :: [7, 6, 5, 4, 3, 2, 1, 0].map fun i => UInt8.ofNat (len >>> (i * 8))

/-- The header, FIN set. -/
def Frame.header (f : Frame) : List UInt8 :=
  (0x80 ||| (f.opcode &&& 0x0F)) ::
    (lengthBytes f.payload.length ++ [f.mask 0, f.mask 1, f.mask 2, f.mask 3])

/-- The masked payload. -/
def Frame.masked (f : Frame) : List UInt8 :=
  f.payload.mapIdx fun i b => b ^^^ f.mask (Fin.ofNat 4 i)

/-- A complete frame. -/
def Frame.bytes (f : Frame) : List UInt8 := f.header ++ f.masked

/-! ## The senders -/

/-- Where the io thread stands, between two of its frames. -/
inductive IoPc where
  /-- before its subscriptions number `k` of three -/
  | subscribing (k : Fin 3)
  /-- in the receive loop, with its heartbeats and PONGs -/
  | receiving

/-- Once a frame is sent. -/
def IoPc.advance : IoPc → IoPc
  | .subscribing 0 => .subscribing 1
  | .subscribing 1 => .subscribing 2
  | _ => .receiving

/-- The frames it may send there. -/
def IoPc.sends : IoPc → Frame → Prop
  | .subscribing _, f => f.opcode = OP_TEXT
  | .receiving, f => f.opcode = OP_TEXT ∨ f.opcode = OP_PONG

instance (pc : IoPc) (f : Frame) : Decidable (pc.sends f) := by
  unfold IoPc.sends
  split <;> infer_instance

/-- Where a caller of `ws_api_request` stands. -/
inductive CallerPc where
  | idle
  | locked
  /-- the header is written, the payload comes next -/
  | sending (f : Frame)
  /-- the frame is sent, the lock still held -/
  | done

variable {T : Type}

/-- The mutex, the senders and the socket. `io_frame` is the frame whose header the io thread has
written and whose payload it has not. History: the frames sent, in the order they were finished. -/
structure State (T : Type) where
  ws_send_mutex : Option T
  io : IoPc
  io_frame : Option Frame
  caller : T → CallerPc
  stream : List UInt8
  sent : List Frame

/-- The socket is connected and `ws_ptr_` published. -/
def init : State T :=
  { ws_send_mutex := none, io := .subscribing 0, io_frame := none, caller := fun _ => .idle
    stream := [], sent := [] }

/-- The calls of `write_all`, by whom, and the lock. -/
inductive Act (T : Type) where
  | ioHeader (f : Frame)
  | ioPayload
  | lock (t : T)
  | header (t : T) (f : Frame)
  | payload (t : T)
  | unlock (t : T)

/-- A call of `write_all`. -/
def State.write (s : State T) (data : List UInt8) : State T := { s with stream := s.stream ++ data }

/-- The end of a call of `send_frame`. -/
def State.finish (s : State T) (f : Frame) : State T := { s with sent := s.sent ++ [f] }

/-- A caller moves on. -/
def State.move [DecidableEq T] (s : State T) (t : T) (pc : CallerPc) : State T :=
  { s with caller := Function.update s.caller t pc }

/-- One step, where the thread it belongs to is at that place and the mutex is free to take. -/
def next [DecidableEq T] (s : State T) : Act T → Option (State T)
  | .ioHeader f =>
    match s.io_frame with
    | some _ => none
    | none =>
      if s.io.sends f then
        -- `if (len == 0) return;`
        if f.payload = [] then some { (s.write f.header).finish f with io := s.io.advance }
        else some { s.write f.header with io_frame := some f }
      else none
  | .ioPayload =>
    match s.io_frame with
    | some f => some { (s.write f.masked).finish f with io := s.io.advance, io_frame := none }
    | none => none
  | .lock t =>
    match s.caller t, s.ws_send_mutex with
    | .idle, none => some ({ s with ws_send_mutex := some t }.move t .locked)
    | _, _ => none
  | .header t f =>
    match s.caller t with
    | .locked =>
      if f.opcode = OP_TEXT then
        if f.payload = [] then some (((s.write f.header).finish f).move t .done)
        else some ((s.write f.header).move t (.sending f))
      else none
    | _ => none
  | .payload t =>
    match s.caller t with
    | .sending f => some (((s.write f.masked).finish f).move t .done)
    | _ => none
  | .unlock t =>
    match s.caller t with
    | .done => some ({ s with ws_send_mutex := none }.move t .idle)
    | _ => none

/-- The frame a sender is in the middle of: `none` is the io thread. -/
def State.writing (s : State T) : Option T → Option Frame
  | none => s.io_frame
  | some t =>
    match s.caller t with
    | .sending f => some f
    | _ => none

/-- The stream is a sequence of complete frames, and the header of one that is being sent. -/
def Framed (s : State T) : Prop :=
  ∃ fs : List Frame, s.stream = fs.flatMap Frame.bytes ∨
    ∃ x f, s.writing x = some f ∧ s.stream = fs.flatMap Frame.bytes ++ f.header

/-- The io thread begins no frame while the holder of the lock is between header and payload, and a
caller begins none while the io thread is. -/
def Apart (s : State T) : Act T → Prop
  | .ioHeader _ =>
    match s.ws_send_mutex with
    | some t => s.writing (some t) = none
    | none => True
  | .header _ _ => s.io_frame = none
  | _ => True

instance (s : State T) (a : Act T) : Decidable (Apart s a) := by
  unfold Apart
  split
  · split <;> infer_instance
  · infer_instance
  · infer_instance

/-! ## The invariant -/

/-- The stream is the frames sent, and the header of at most one more. -/
def Whole (s : State T) : Prop :=
  ((∀ x, s.writing x = none) ∧ s.stream = s.sent.flatMap Frame.bytes) ∨
    ∃ x f, s.writing x = some f ∧ (∀ y, y ≠ x → s.writing y = none) ∧
      s.stream = s.sent.flatMap Frame.bytes ++ f.header

theorem Whole.framed {s : State T} (h : Whole s) : Framed s := by
  rcases h with ⟨-, hs⟩ | ⟨x, f, hx, -, hs⟩
  · exact ⟨s.sent, Or.inl hs⟩
  · exact ⟨s.sent, Or.inr ⟨x, f, hx, hs⟩⟩

/-- With nobody in the middle of a frame the stream is the frames sent. -/
theorem Whole.of_quiet {s : State T} (h : Whole s) (hq : ∀ x, s.writing x = none) :
    s.stream = s.sent.flatMap Frame.bytes := by
  rcases h with ⟨-, hs⟩ | ⟨x, f, hx, -, -⟩
  · exact hs
  · rw [hq x] at hx
    cases hx

/-- A sender in the middle of a frame is the only one. -/
theorem Whole.of_writing {s : State T} (h : Whole s) {x : Option T} {f : Frame}
    (hx : s.writing x = some f) : (∀ y, y ≠ x → s.writing y = none) ∧
      s.stream = s.sent.flatMap Frame.bytes ++ f.header := by
  rcases h with ⟨hq, -⟩ | ⟨x', f', hx', ho, hs⟩
  · rw [hq x] at hx
    cases hx
  · by_cases he : x = x'
    · subst he
      obtain rfl := Option.some.inj (hx'.symm.trans hx)
      exact ⟨ho, hs⟩
    · rw [ho x he] at hx
      cases hx

/-- A frame begun while nobody is in the middle of one. -/
theorem whole_begin {s s' : State T} {x : Option T} {f : Frame} (h : Whole s)
    (hq : ∀ y, s.writing y = none) (hstream : s'.stream = s.stream ++ f.header)
    (hsent : s'.sent = s.sent) (hx : s'.writing x = some f)
    (ho : ∀ y, y ≠ x → s'.writing y = none) : Whole s' := by
  refine Or.inr ⟨x, f, hx, ho, ?_⟩
  rw [hstream, hsent, h.of_quiet hq]

/-- A frame finished. -/
theorem whole_finish {s s' : State T} {f : Frame}
    (hs : s'.stream = s.sent.flatMap Frame.bytes ++ f.bytes) (hsent : s'.sent = s.sent ++ [f])
    (hq : ∀ y, s'.writing y = none) : Whole s' := by
  refine Or.inl ⟨hq, ?_⟩
  rw [hs, hsent, List.flatMap_append, List.flatMap_singleton]

theorem bytes_of_empty {f : Frame} (h : f.payload = []) : f.bytes = f.header := by
  rw [Frame.bytes, Frame.masked, h, List.mapIdx_nil, List.append_nil]

/-- The invariant of the runs that keep the senders apart: a caller with a frame begun holds the
mutex, and the stream is whole frames and one header at most. -/
structure Inv (s : State T) : Prop where
  holds : ∀ t, s.caller t ≠ .idle → s.ws_send_mutex = some t
  whole : Whole s

theorem inv_init : Inv (init : State T) where
  holds _ h := absurd rfl h
  whole := Or.inl ⟨fun x => by cases x <;> rfl, rfl⟩

variable {s s' : State T}

/-- A caller that does not hold the mutex is not in the middle of a frame. -/
theorem Inv.writing_eq_none (h : Inv s) {t : T} (hm : s.ws_send_mutex ≠ some t) :
    s.writing (some t) = none := by
  have hidle : s.caller t = .idle := by
    by_contra hne
    exact hm (h.holds t hne)
  rw [State.writing, hidle]

/-- Nobody is in the middle of a frame once the io thread and the holder of the mutex are not. -/
theorem Inv.quiet (h : Inv s) (hio : s.io_frame = none)
    (hm : ∀ t, s.ws_send_mutex = some t → s.writing (some t) = none) :
    ∀ x, s.writing x = none := by
  rintro (_ | t)
  · exact hio
  · by_cases ht : s.ws_send_mutex = some t
    · exact hm t ht
    · exact h.writing_eq_none ht

variable [DecidableEq T]

theorem caller_move_self (s : State T) (t : T) (pc : CallerPc) : (s.move t pc).caller t = pc := by
  simp only [State.move, Function.update_self]

theorem caller_move_of_ne (s : State T) {t t' : T} (pc : CallerPc) (h : t' ≠ t) :
    (s.move t pc).caller t' = s.caller t' := by
  simp only [State.move, Function.update_of_ne h]

theorem writing_move_self (s : State T) (t : T) (pc : CallerPc) : (s.move t pc).writing (some t) =
    match pc with
    | .sending f => some f
    | _ => none := by
  rw [State.writing, caller_move_self]

theorem writing_move_of_ne (s : State T) {t : T} (pc : CallerPc) {x : Option T} (h : x ≠ some t) :
    (s.move t pc).writing x = s.writing x := by
  cases x with
  | none => rfl
  | some t' =>
    have hne : t' ≠ t := fun he => h (he ▸ rfl)
    simp only [State.writing, caller_move_of_ne s pc hne]

/-- Nobody is in the middle of a frame once the only caller that was is done. -/
theorem quiet_done (s : State T) {t : T} (h : ∀ x, x ≠ some t → s.writing x = none) :
    ∀ x, (s.move t .done).writing x = none := by
  intro x
  by_cases hx : x = some t
  · subst hx
    exact writing_move_self s t .done
  · rw [writing_move_of_ne _ _ hx]
    exact h x hx

/-- Taking the mutex or giving it back concerns no frame. -/
theorem Whole.relock (h : Whole s) {m : Option T} {t : T} {pc : CallerPc}
    (hbefore : s.writing (some t) = none) (hafter : ∀ f, pc ≠ .sending f) :
    Whole (State.move { s with ws_send_mutex := m } t pc) := by
  have hw : ∀ x, (State.move { s with ws_send_mutex := m } t pc).writing x = s.writing x := by
    intro x
    by_cases hx : x = some t
    · subst hx
      rw [writing_move_self, hbefore]
      cases pc with
      | sending f => exact absurd rfl (hafter f)
      | idle | locked | done => rfl
    · rw [writing_move_of_ne _ _ hx]
      cases x <;> rfl
  rcases h with ⟨hq, hstream⟩ | ⟨x, f, hx, ho, hstream⟩
  · exact Or.inl ⟨fun x => (hw x).trans (hq x), hstream⟩
  · exact Or.inr ⟨x, f, (hw x).trans hx, fun y hy => (hw y).trans (ho y hy), hstream⟩

/-- A caller in its critical section moves on within it. -/
theorem Inv.holds_move (h : Inv s) {t : T} (hc : s.caller t ≠ .idle) (pc : CallerPc) :
    ∀ t', (s.move t pc).caller t' ≠ .idle → s.ws_send_mutex = some t' := by
  intro t' ht'
  by_cases he : t' = t
  · exact he ▸ h.holds t hc
  · rw [caller_move_of_ne _ _ he] at ht'
    exact h.holds t' ht'

theorem inv_ioHeader {f : Frame} (h : Inv s) (hc : Apart s (.ioHeader f))
    (hs : next s (.ioHeader f) = some s') : Inv s' := by
  simp only [next] at hs
  split at hs
  · cases hs
  · rename_i hio
    have hq : ∀ x, s.writing x = none := h.quiet hio fun t ht => by
      unfold Apart at hc
      rwa [ht] at hc
    split at hs
    · split at hs
      · rename_i hp
        obtain rfl := Option.some.inj hs
        refine ⟨h.holds, whole_finish (s := s) ?_ rfl fun y => ?_⟩
        · rw [bytes_of_empty hp, ← h.whole.of_quiet hq]
          rfl
        · exact hq y
      · obtain rfl := Option.some.inj hs
        refine ⟨h.holds, whole_begin (x := none) h.whole hq rfl rfl rfl fun y hy => ?_⟩
        cases y with
        | none => exact absurd rfl hy
        | some t => exact hq (some t)
    · cases hs

theorem inv_ioPayload (h : Inv s) (hs : next s .ioPayload = some s') : Inv s' := by
  simp only [next] at hs
  split at hs
  · rename_i f hio
    obtain ⟨ho, hstream⟩ := h.whole.of_writing (x := none) hio
    obtain rfl := Option.some.inj hs
    refine ⟨h.holds, whole_finish (s := s) ?_ rfl fun y => ?_⟩
    · rw [Frame.bytes, ← List.append_assoc, ← hstream]
      rfl
    · cases y with
      | none => rfl
      | some t => exact ho (some t) (by simp)
  · cases hs

theorem inv_lock {t : T} (h : Inv s) (hs : next s (.lock t) = some s') : Inv s' := by
  simp only [next] at hs
  split at hs
  · rename_i hidle hfree
    obtain rfl := Option.some.inj hs
    have hbefore : s.writing (some t) = none := by rw [State.writing, hidle]
    refine ⟨fun t' ht' => ?_, h.whole.relock hbefore fun _ => CallerPc.noConfusion⟩
    by_cases he : t' = t
    · subst he
      rfl
    · rw [caller_move_of_ne _ _ he] at ht'
      exact absurd (hfree.symm.trans (h.holds t' ht')) (Option.some_ne_none t').symm
  · cases hs

theorem inv_header {t : T} {f : Frame} (h : Inv s) (hc : Apart s (.header t f))
    (hs : next s (.header t f) = some s') : Inv s' := by
  simp only [next] at hs
  split at hs
  · rename_i hpc
    have hne : s.caller t ≠ .idle := by
      rw [hpc]
      exact CallerPc.noConfusion
    have hm := h.holds t hne
    have hq : ∀ x, s.writing x = none := h.quiet hc fun t' ht' => by
      obtain rfl := Option.some.inj (hm.symm.trans ht')
      rw [State.writing, hpc]
    split at hs
    · split at hs
      · rename_i hp
        obtain rfl := Option.some.inj hs
        refine ⟨h.holds_move hne _, whole_finish (s := s) ?_ rfl (quiet_done s fun x _ => hq x)⟩
        rw [bytes_of_empty hp, ← h.whole.of_quiet hq]
        rfl
      · obtain rfl := Option.some.inj hs
        refine ⟨h.holds_move hne _, whole_begin h.whole hq rfl rfl (writing_move_self _ t _)
          fun y hy => ?_⟩
        rw [writing_move_of_ne _ _ hy]
        exact hq y
    · cases hs
  · cases hs

theorem inv_payload {t : T} (h : Inv s) (hs : next s (.payload t) = some s') : Inv s' := by
  simp only [next] at hs
  split at hs
  · rename_i f hpc
    have hne : s.caller t ≠ .idle := by
      rw [hpc]
      exact CallerPc.noConfusion
    have hx : s.writing (some t) = some f := by rw [State.writing, hpc]
    obtain ⟨ho, hstream⟩ := h.whole.of_writing hx
    obtain rfl := Option.some.inj hs
    refine ⟨h.holds_move hne _, whole_finish (s := s) ?_ rfl (quiet_done s ho)⟩
    rw [Frame.bytes, ← List.append_assoc, ← hstream]
    rfl
  · cases hs

theorem inv_unlock {t : T} (h : Inv s) (hs : next s (.unlock t) = some s') : Inv s' := by
  simp only [next] at hs
  split at hs
  · rename_i hpc
    have hne : s.caller t ≠ .idle := by
      rw [hpc]
      exact CallerPc.noConfusion
    have hm := h.holds t hne
    obtain rfl := Option.some.inj hs
    have hbefore : s.writing (some t) = none := by rw [State.writing, hpc]
    refine ⟨fun t' ht' => ?_, h.whole.relock hbefore fun _ => CallerPc.noConfusion⟩
    by_cases he : t' = t
    · subst he
      exact absurd (caller_move_self _ t' _) ht'
    · rw [caller_move_of_ne _ _ he] at ht'
      exact absurd (Option.some.inj (hm.symm.trans (h.holds t' ht'))).symm he
  · cases hs

theorem inv_next {a : Act T} (h : Inv s) (hc : Apart s a) (hs : next s a = some s') : Inv s' := by
  cases a with
  | ioHeader f => exact inv_ioHeader h hc hs
  | ioPayload => exact inv_ioPayload h hs
  | lock t => exact inv_lock h hs
  | header t f => exact inv_header h hc hs
  | payload t => exact inv_payload h hs
  | unlock t => exact inv_unlock h hs

/-- **Frames stay whole** in every run in which the io thread and the callers begin no frame between
one another's header and payload: the stream is a sequence of complete frames, namely the frames sent
in the order in which they were finished, and after them the header of the one frame that a sender
may be in the middle of. -/
theorem frames_whole (h : Reaches (Fires next) Apart init s) : Framed s ∧ Whole s := by
  have hw := (h.inv inv_init fun _ _ _ hi hc hs => inv_next hi hc hs).whole
  exact ⟨hw.framed, hw⟩

/-- A text frame, its payload masked with zeros. -/
def textFrame (payload : List UInt8) : Frame := { opcode := OP_TEXT, payload, mask := fun _ => 0 }

/-- The io thread's first subscription, then a caller's request. -/
def apartRun : List (Act Unit) :=
  [.ioHeader (textFrame [0x7b]), .ioPayload, .lock (), .header () (textFrame [0x7b, 0x7d]),
    .payload ()]

theorem frames_whole_apart : ∃ s : State Unit, s.sent.length = 2 ∧ Framed s ∧ Whole s := by
  have h : (play next Apart init apartRun).any (fun s => decide (s.sent.length = 2)) = true := by
    decide
  obtain ⟨s, hs, hlen⟩ := (Option.any_eq_true _ _).mp h
  exact ⟨s, of_decide_eq_true hlen, frames_whole (reaches_of_play hs)⟩

/-! ## The interleaving -/

/-- A frame whose second byte says two bytes of payload is eight bytes long. -/
theorem length_bytes_of_two {f : Frame} {b : UInt8} {l l' : List UInt8}
    (h : f.bytes ++ l' = b :: 0x82 :: l) : f.bytes.length = 8 := by
  have hlen : f.payload.length = 2 := by
    rw [Frame.bytes, Frame.header, lengthBytes] at h
    split at h
    · rename_i hlt
      have hb : 0x80 ||| UInt8.ofNat f.payload.length = 0x82 := by
        simpa using congrArg List.head? (congrArg List.tail h)
      have hall : ∀ n < 126, 0x80 ||| UInt8.ofNat n = 0x82 → n = 2 := by decide
      exact hall _ hlt hb
    · split at h
      · have hb := congrArg (fun l => l[1]?) h
        simp at hb
        exact absurd hb (by decide)
      · have hb := congrArg (fun l => l[1]?) h
        simp at hb
        exact absurd hb (by decide)
  rw [Frame.bytes, Frame.header, lengthBytes, if_pos (by omega)]
  simp [Frame.masked, hlen]

/-- No frame begins with the byte 0. -/
theorem flatMap_bytes_ne_zero {fs : List Frame} {l : List UInt8} :
    fs.flatMap Frame.bytes ≠ 0 :: l := by
  cases fs with
  | nil => simp
  | cons f fs =>
    intro h
    have hb : 0x80 ||| (f.opcode &&& 0x0F) = 0 := by
      simpa [Frame.bytes, Frame.header] using congrArg List.head? h
    have hle : 128 ≤ (0x80 ||| (f.opcode &&& 0x0F)).toNat := by
      rw [UInt8.toNat_or]
      exact Nat.left_le_or
    rw [hb] at hle
    exact absurd hle (by decide)

/-- A caller's header, the io thread's first subscription, and only then the caller's payload. -/
def raceRun : List (Act Unit) :=
  [.lock (), .header () (textFrame [0x7b, 0x7d]), .ioHeader (textFrame [0x7b]), .ioPayload,
    .payload ()]

/-- **The frames interleave**: every send has returned, and the stream is no sequence of frames. -/
theorem frames_interleave :
    ¬∀ s : State Unit, Reaches (Fires next) (fun _ _ => True) init s → Framed s := by
  intro hall
  have h : (play next (fun _ _ => True) init raceRun).any (fun s => decide
      (s.writing none = none ∧ s.writing (some ()) = none ∧ s.stream =
        [0x81, 0x82, 0, 0, 0, 0, 0x81, 0x81, 0, 0, 0, 0, 0x7b, 0x7b, 0x7d])) = true := by
    decide
  obtain ⟨s, hs, hp⟩ := (Option.any_eq_true _ _).mp h
  obtain ⟨hio, hcaller, hstream⟩ := of_decide_eq_true hp
  obtain ⟨fs, hfs | ⟨x, f, hx, -⟩⟩ := hall s (reaches_of_play hs)
  · rw [hstream] at hfs
    cases fs with
    | nil => cases hfs
    | cons f fs =>
      rw [List.flatMap_cons] at hfs
      have hlen := length_bytes_of_two hfs.symm
      have hdrop : (f.bytes ++ fs.flatMap Frame.bytes).drop 8 = [0, 0, 0, 0, 0x7b, 0x7b, 0x7d] := by
        rw [← hfs]
        rfl
      rw [List.drop_left' hlen] at hdrop
      exact flatMap_bytes_ne_zero hdrop
  · rcases x with _ | ⟨⟩
    · cases hio.symm.trans hx
    · cases hcaller.symm.trans hx

end Meridian.GateFrames
