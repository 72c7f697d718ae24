import Mathlib.Algebra.Group.Nat.Defs
import Mathlib.Data.Int.Notation
import Mathlib.Data.List.Basic
import Mathlib.Data.Nat.Basic
import Meridian.Cpp.GateFrames

/-!
# `WsClient`: what `recv_frame` makes of `send_frame`'s bytes

Model of `recv_frame` of `exchange/cpp/src/net_utils.cpp` (360-419) over the bytes that are still to
be read, all of them there. `send_frame` (327-358) is `Frame.bytes`.

Results:
* `frames_round_trip`: a frame that was sent is received with its opcode and its payload, whatever
  follows it, and a sequence of data frames is received frame by frame;
* `ofBytes_bytes`: a number is what its big-endian bytes say.
-/

namespace Meridian.WsFrames

open GateFrames (Frame lengthBytes OP_TEXT OP_PONG)

/-! ## Big-endian numbers -/

/-- The number with these bytes, the highest first. -/
def ofBytes (bs : List UInt8) : ℕ := bs.foldl (fun n b => n <<< 8 ||| b.toNat) 0

/-- The `k` lower bytes of a number, the highest first. -/
def bytes : ℕ → ℕ → List UInt8
  | 0, _ => []
  | k + 1, n => bytes k (n >>> 8) ++ [UInt8.ofNat n]

theorem ofBytes_concat (bs : List UInt8) (b : UInt8) :
    ofBytes (bs ++ [b]) = ofBytes bs * 256 + b.toNat := by
  rw [ofBytes, List.foldl_concat, ← Nat.shiftLeft_add_eq_or_of_lt b.toNat_lt, Nat.shiftLeft_eq]
  rfl

theorem length_bytes (k n : ℕ) : (bytes k n).length = k := by
  induction k generalizing n with
  | zero => rfl
  | succ k ih => rw [bytes, List.length_append, ih, List.length_singleton]

theorem ofBytes_bytes {k n : ℕ} (h : n < 256 ^ k) : ofBytes (bytes k n) = n := by
  induction k generalizing n with
  | zero =>
    rw [Nat.pow_zero, Nat.lt_one_iff] at h
    rw [h]
    rfl
  | succ k ih =>
    have hdiv : n >>> 8 = n / 256 := Nat.shiftRight_eq_div_pow n 8
    have hlt : n >>> 8 < 256 ^ k := by
      rw [hdiv]
      rw [Nat.pow_succ] at h
      exact Nat.div_lt_of_lt_mul (by omega)
    have hlow : (UInt8.ofNat n).toNat = n % 256 := UInt8.toNat_ofNat'
    rw [bytes, ofBytes_concat, ih hlt, hdiv, hlow]
    omega

/-! ## Receiving -/

/-- `OP_CONTINUATION`. -/
def OP_CONTINUATION : UInt8 := 0x0

/-- `OP_BINARY`. -/
def OP_BINARY : UInt8 := 0x2

/-- `OP_CLOSE`. -/
def OP_CLOSE : UInt8 := 0x8

/-- `OP_PING`. -/
def OP_PING : UInt8 := 0x9

/-- `TlsConn::read_exact` (`net_utils.cpp:121-129`): these bytes and those after them, `none` where
it throws. `SSL_read` takes an `int`, and refuses a count that is no positive one. -/
def read_exact (n : ℕ) (stream : List UInt8) : Option (List UInt8 × List UInt8) :=
  if n < 2 ^ 31 ∧ n ≤ stream.length then some (stream.take n, stream.drop n) else none

/-- The payload length, of which the second byte is `b1`. -/
def read_length (b1 : UInt8) (stream : List UInt8) : Option (ℕ × List UInt8) :=
  let payload_len := (b1 &&& 0x7F).toNat
  if payload_len = 126 then (read_exact 2 stream).map fun (ext, stream) => (ofBytes ext, stream)
  else if payload_len = 127 then
    (read_exact 8 stream).map fun (ext, stream) => (ofBytes ext, stream)
  else some (payload_len, stream)

/-- The masking key, where there is one. -/
def read_mask (server_masked : Bool) (stream : List UInt8) : Option (List UInt8 × List UInt8) :=
  if server_masked then read_exact 4 stream else some ([0, 0, 0, 0], stream)

/-- `fragment[i] ^= mask_key[i % 4]`. -/
def unmask (mask_key fragment : List UInt8) : List UInt8 :=
  fragment.mapIdx fun i b => b ^^^ mask_key.getD (i % 4) 0

/-- One frame as it is on the wire, unmasked. -/
structure Fragment where
  fin : Bool
  opcode : UInt8
  payload : List UInt8
  deriving DecidableEq

/-- One round of the loop up to its payload, and the bytes left; `none` where it throws. -/
def read_fragment : List UInt8 → Option (Fragment × List UInt8)
  | b0 :: b1 :: stream => do
    let server_masked := decide (b1 &&& 0x80 ≠ 0)
    let (payload_len, stream) ← read_length b1 stream
    let (mask_key, stream) ← read_mask server_masked stream
    let (fragment, stream) ← read_exact payload_len stream
    some
      ({ fin := decide (b0 &&& 0x80 ≠ 0)
         opcode := b0 &&& 0x0F
         payload := if server_masked then unmask mask_key fragment else fragment }, stream)
  | _ => none

/-- What `recv_frame` does: it times out and returns -1, throws, or returns an opcode with the
payload `out`, and leaves the rest of the bytes. -/
inductive Received where
  | timeout
  | throws
  | frame (opcode : ℤ) (out rest : List UInt8)
  deriving DecidableEq

theorem length_of_read_exact {n : ℕ} {stream l rest : List UInt8}
    (h : read_exact n stream = some (l, rest)) : rest.length ≤ stream.length := by
  unfold read_exact at h
  obtain ⟨-, he⟩ := Option.ite_none_right_eq_some.mp h
  obtain ⟨-, rfl⟩ := Prod.mk.inj (Option.some.inj he)
  rw [List.length_drop]
  omega

theorem length_of_read_length {b1 : UInt8} {n : ℕ} {stream rest : List UInt8}
    (h : read_length b1 stream = some (n, rest)) : rest.length ≤ stream.length := by
  have hmap : ∀ k, (read_exact k stream).map (fun (ext, stream) => (ofBytes ext, stream)) =
      some (n, rest) → rest.length ≤ stream.length := by
    intro k hk
    obtain ⟨⟨ext, left⟩, hread, he⟩ := Option.map_eq_some_iff.mp hk
    obtain ⟨-, rfl⟩ := Prod.mk.inj he
    exact length_of_read_exact hread
  unfold read_length at h
  simp only at h
  split at h
  · exact hmap 2 h
  · split at h
    · exact hmap 8 h
    · obtain ⟨-, rfl⟩ := Prod.mk.inj (Option.some.inj h)
      exact le_rfl

theorem length_of_read_mask {server_masked : Bool} {stream mask_key rest : List UInt8}
    (h : read_mask server_masked stream = some (mask_key, rest)) : rest.length ≤ stream.length := by
  unfold read_mask at h
  split at h
  · exact length_of_read_exact h
  · obtain ⟨-, rfl⟩ := Prod.mk.inj (Option.some.inj h)
    exact le_rfl

/-- Every round of the loop takes bytes. -/
theorem length_of_read_fragment {f : Fragment} {stream rest : List UInt8}
    (h : read_fragment stream = some (f, rest)) : rest.length < stream.length := by
  unfold read_fragment at h
  split at h
  · rename_i b0 b1 stream
    simp only [Option.bind_eq_bind, Option.bind_eq_some_iff] at h
    obtain ⟨⟨n, s1⟩, h1, ⟨mask_key, s2⟩, h2, ⟨fragment, s3⟩, h3, he⟩ := h
    obtain ⟨-, rfl⟩ := Prod.mk.inj (Option.some.inj he)
    have hl1 : s1.length ≤ stream.length := length_of_read_length h1
    have hl2 : s2.length ≤ s1.length := length_of_read_mask h2
    have hl3 : s3.length ≤ s2.length := length_of_read_exact h3
    simp only [List.length_cons]
    omega
  · cases h

/-- The loop of `recv_frame`, with what it has assembled so far. -/
def recv_loop (assembled : List UInt8) (final_opcode : ℤ) (stream : List UInt8) : Received :=
  if stream = [] then .timeout
  else
    match h : read_fragment stream with
    | none => .throws
    | some (f, rest) =>
      -- control frames are not fragmented
      if f.opcode = OP_PING ∨ f.opcode = OP_PONG ∨ f.opcode = OP_CLOSE then
        .frame f.opcode.toNat f.payload rest
      else
        let final_opcode :=
          if f.opcode ≠ OP_CONTINUATION then (f.opcode.toNat : ℤ) else final_opcode
        let assembled := assembled ++ f.payload
        have : rest.length < stream.length := length_of_read_fragment h
        if f.fin then .frame final_opcode assembled rest
        else recv_loop assembled final_opcode rest
termination_by stream.length

/-- `recv_frame` (`net_utils.cpp:360-419`). -/
def recv_frame (stream : List UInt8) : Received := recv_loop [] (-1) stream

/-! ## One frame -/

theorem read_exact_append {l : List UInt8} (h : l.length < 2 ^ 31) (rest : List UInt8) :
    read_exact l.length (l ++ rest) = some (l, rest) := by
  have hle : l.length ≤ (l ++ rest).length := by
    rw [List.length_append]
    omega
  rw [read_exact, if_pos ⟨h, hle⟩, List.take_left, List.drop_left]

/-- The bytes of an extended length. -/
theorem read_exact_bytes {k : ℕ} (hk : k < 2 ^ 31) (n : ℕ) (rest : List UInt8) :
    read_exact k (bytes k n ++ rest) = some (bytes k n, rest) := by
  have h := read_exact_append (l := bytes k n) (by rwa [length_bytes]) rest
  rwa [length_bytes] at h

/-- The MASK bit of a second byte. -/
def maskBit (masked : Bool) : UInt8 := if masked then 0x80 else 0

/-- The length bytes of a frame, from either side. -/
def lengthOctets (masked : Bool) (len : ℕ) : List UInt8 :=
  if len < 126 then [maskBit masked ||| UInt8.ofNat len]
  else if len < 65536 then (maskBit masked ||| 126) :: bytes 2 len
  else (maskBit masked ||| 127) :: bytes 8 len

/-- A length below 126 in the second byte. -/
theorem short_length (masked : Bool) : ∀ len < 126,
    ((maskBit masked ||| UInt8.ofNat len) &&& 0x7F).toNat = len ∧
    decide ((maskBit masked ||| UInt8.ofNat len) &&& 0x80 ≠ 0) = masked := by
  cases masked
  · decide +kernel
  · decide +kernel

/-- **The three encodings of a length** are read back, each with the MASK bit. -/
theorem read_lengthOctets (masked : Bool) {len : ℕ} (h : len < 2 ^ 64) :
    ∃ b1 ext, lengthOctets masked len = b1 :: ext ∧ decide (b1 &&& 0x80 ≠ 0) = masked ∧
      ∀ rest, read_length b1 (ext ++ rest) = some (len, rest) := by
  have hlong : ∀ ext_len : UInt8, ext_len = 126 ∨ ext_len = 127 →
      ((maskBit masked ||| ext_len) &&& 0x7F).toNat = ext_len.toNat ∧
      decide ((maskBit masked ||| ext_len) &&& 0x80 ≠ 0) = masked := by
    intro ext_len hext
    rcases hext with rfl | rfl
    · cases masked <;> exact ⟨rfl, rfl⟩
    · cases masked <;> exact ⟨rfl, rfl⟩
  unfold lengthOctets
  split
  · rename_i hlt
    obtain ⟨hlen, hmask⟩ := short_length masked len hlt
    refine ⟨_, [], rfl, hmask, fun rest => ?_⟩
    have h126 : len ≠ 126 := by omega
    have h127 : len ≠ 127 := by omega
    simp only [read_length, hlen, if_neg h126, if_neg h127, List.nil_append]
  · split
    · rename_i hlt
      obtain ⟨hlen, hmask⟩ := hlong 126 (Or.inl rfl)
      refine ⟨_, bytes 2 len, rfl, hmask, fun rest => ?_⟩
      have h126 : (126 : UInt8).toNat = 126 := rfl
      simp only [read_length, hlen, h126, if_true, read_exact_bytes (show 2 < 2 ^ 31 by omega),
        Option.map_some, ofBytes_bytes (show len < 256 ^ 2 from hlt)]
    · obtain ⟨hlen, hmask⟩ := hlong 127 (Or.inr rfl)
      refine ⟨_, bytes 8 len, rfl, hmask, fun rest => ?_⟩
      have h127 : (127 : UInt8).toNat = 127 := rfl
      have hne : ¬127 = 126 := by decide
      simp only [read_length, hlen, h127, if_neg hne, if_true,
        read_exact_bytes (show 8 < 2 ^ 31 by omega), Option.map_some,
        ofBytes_bytes (show len < 256 ^ 8 from h)]

/-- The eight shifts of the longest encoding. -/
theorem shifts_eq (len : ℕ) :
    [7, 6, 5, 4, 3, 2, 1, 0].map (fun i => UInt8.ofNat (len >>> (i * 8))) = bytes 8 len := by
  simp only [bytes, ← Nat.shiftRight_add, List.map_cons, List.map_nil, List.nil_append,
    List.cons_append]
  rfl

theorem getD_mask (mask : Fin 4 → UInt8) (i : ℕ) :
    [mask 0, mask 1, mask 2, mask 3].getD (i % 4) 0 = mask (Fin.ofNat 4 i) := by
  have hlt : i % 4 < 4 := Nat.mod_lt _ (by omega)
  have hfin : Fin.ofNat 4 i = ⟨i % 4, hlt⟩ := rfl
  rw [hfin]
  generalize i % 4 = j at hlt
  match j, hlt with
  | 0, _ | 1, _ | 2, _ | 3, _ => rfl

/-- Masking twice with one key does nothing. -/
theorem unmask_masked (f : Frame) :
    unmask [f.mask 0, f.mask 1, f.mask 2, f.mask 3] f.masked = f.payload := by
  rw [unmask, Frame.masked, List.mapIdx_mapIdx]
  refine List.ext_getElem (List.length_mapIdx ..) fun i h1 h2 => ?_
  rw [List.getElem_mapIdx]
  simp only [Function.comp, getD_mask]
  rw [UInt8.xor_assoc, UInt8.xor_self, UInt8.xor_zero]

/-- A frame on the wire, from either side. -/
structure Wire where
  fin : Bool
  opcode : UInt8
  payload : List UInt8
  mask : Option (Fin 4 → UInt8)

/-- The masking key and the payload under it. -/
def Wire.body (w : Wire) : List UInt8 :=
  match w.mask with
  | some mask => List.ofFn mask ++ (⟨w.opcode, w.payload, mask⟩ : Frame).masked
  | none => w.payload

/-- The bytes of a frame. -/
def Wire.bytes (w : Wire) : List UInt8 :=
  ((if w.fin then 0x80 else 0) ||| w.opcode) ::
    (lengthOctets w.mask.isSome w.payload.length ++ w.body)

/-- FIN and the opcode of a first byte. -/
theorem first_byte (fin : Bool) {opcode : UInt8} (h : opcode < 16) :
    decide (((if fin then 0x80 else 0) ||| opcode) &&& 0x80 ≠ 0) = fin ∧
    ((if fin then 0x80 else 0) ||| opcode) &&& 0x0F = opcode := by
  have hall : ∀ n < 16, decide (((if fin then 0x80 else 0) ||| UInt8.ofNat n) &&& 0x80 ≠ 0) = fin ∧
      ((if fin then 0x80 else 0) ||| UInt8.ofNat n) &&& 0x0F = UInt8.ofNat n := by
    cases fin
    · decide +kernel
    · decide +kernel
  have hop := hall opcode.toNat h
  rwa [UInt8.ofNat_toNat] at hop

/-- `read_exact` throws where the count is no positive `int`. -/
theorem read_exact_long {n : ℕ} (h : ¬n < 2 ^ 31) (stream : List UInt8) :
    read_exact n stream = none := by
  rw [read_exact, if_neg fun hle => h hle.1]

theorem length_masked (f : Frame) : f.masked.length = f.payload.length := List.length_mapIdx ..

/-- **A frame on the wire** is read back whole and the bytes after it are left; it throws where the
payload is too long for `SSL_read`. -/
theorem read_fragment_wire {w : Wire} (hop : w.opcode < 16) (hlen : w.payload.length < 2 ^ 64)
    (rest : List UInt8) : read_fragment (w.bytes ++ rest) =
      if w.payload.length < 2 ^ 31 then some (⟨w.fin, w.opcode, w.payload⟩, rest) else none := by
  obtain ⟨fin, opcode, payload, mask⟩ := w
  obtain ⟨b1, ext, hbytes, hmask, hread⟩ := read_lengthOctets mask.isSome hlen
  obtain ⟨hfin, hopcode⟩ := first_byte fin hop
  simp only at hlen hbytes hread ⊢
  simp only [Wire.bytes, hbytes, List.cons_append, List.append_assoc, read_fragment, hread,
    Option.bind_eq_bind, Option.bind_some, hmask, hfin, hopcode]
  cases mask with
  | none =>
    simp only [Wire.body, read_mask, Option.isSome_none, Bool.false_eq_true, if_false,
      Option.bind_some]
    split
    · rename_i hlt
      rw [read_exact_append hlt rest, Option.bind_some]
    · rename_i hge
      rw [read_exact_long hge, Option.bind_none]
  | some mask =>
    have hmask : List.ofFn mask = [mask 0, mask 1, mask 2, mask 3] := rfl
    have hkey := read_exact_append (l := [mask 0, mask 1, mask 2, mask 3])
      (show 4 < 2 ^ 31 by omega) ((⟨opcode, payload, mask⟩ : Frame).masked ++ rest)
    rw [← List.append_assoc] at hkey
    simp only [Wire.body, hmask, read_mask, Option.isSome_some, if_true]
    rw [show read_exact 4 _ = _ from hkey]
    simp only [Option.bind_some]
    split
    · rename_i hlt
      have hpayload := read_exact_append (l := (⟨opcode, payload, mask⟩ : Frame).masked)
        (by rwa [length_masked]) rest
      rw [length_masked] at hpayload
      simp only [hpayload, Option.bind_some, unmask_masked ⟨opcode, payload, mask⟩]
    · rename_i hge
      rw [read_exact_long hge, Option.bind_none]

/-- What `send_frame` writes. -/
theorem bytes_eq_wire (f : Frame) :
    f.bytes = (⟨true, f.opcode &&& 0x0F, f.payload, some f.mask⟩ : Wire).bytes := by
  have hlength : lengthBytes f.payload.length = lengthOctets true f.payload.length := by
    rw [lengthBytes, shifts_eq]
    rfl
  rw [Frame.bytes, Frame.header, hlength]
  simp only [Wire.bytes, Wire.body, Option.isSome_some, List.cons_append, List.append_assoc]
  rfl

/-- **A frame that was sent** is read back whole, and the bytes after it are left. -/
theorem read_fragment_bytes (f : Frame) (hlen : f.payload.length < 2 ^ 31) (rest : List UInt8) :
    read_fragment (f.bytes ++ rest) =
      some (⟨true, f.opcode &&& 0x0F, f.payload⟩, rest) := by
  have hop : f.opcode &&& 0x0F < 16 := by
    rw [UInt8.lt_iff_toNat_lt, UInt8.toNat_and]
    exact Nat.lt_succ_of_le Nat.and_le_right
  have hread := read_fragment_wire (w := ⟨true, f.opcode &&& 0x0F, f.payload, some f.mask⟩) hop
    (by simp only; omega) rest
  rw [bytes_eq_wire, hread, if_pos hlen]

/-! ## `recv_frame` -/

theorem bytes_ne_nil (f : Frame) (rest : List UInt8) : f.bytes ++ rest ≠ [] := by
  rw [Frame.bytes, Frame.header]
  exact List.cons_ne_nil _ _

/-- The opcodes of a complete frame. -/
def opcodes : List UInt8 := [OP_TEXT, OP_BINARY, OP_PING, OP_PONG, OP_CLOSE]

theorem opcode_mask : ∀ op ∈ opcodes, op &&& 0x0F = op ∧ op ≠ OP_CONTINUATION := by
  intro op hop
  simp only [opcodes, List.mem_cons, List.not_mem_nil, or_false] at hop
  rcases hop with rfl | rfl | rfl | rfl | rfl <;> decide

theorem recv_frame_bytes {f : Frame} (hop : f.opcode ∈ opcodes)
    (hlen : f.payload.length < 2 ^ 31) (rest : List UInt8) :
    recv_frame (f.bytes ++ rest) = .frame f.opcode.toNat f.payload rest := by
  obtain ⟨hmask, hne⟩ := opcode_mask f.opcode hop
  have hread := read_fragment_bytes f hlen rest
  rw [hmask] at hread
  rw [recv_frame, recv_loop, if_neg (bytes_ne_nil f rest)]
  split
  · rename_i hnone
    rw [hread] at hnone
    cases hnone
  · rename_i g left hsome
    rw [hread] at hsome
    obtain ⟨rfl, rfl⟩ := Prod.mk.inj (Option.some.inj hsome)
    by_cases hcontrol : f.opcode = OP_PING ∨ f.opcode = OP_PONG ∨ f.opcode = OP_CLOSE
    · rw [if_pos hcontrol]
    · rw [if_neg hcontrol]
      simp only [hne, ne_eq, not_false_eq_true, if_true, List.nil_append]

/-- Every frame that is received takes bytes. -/
theorem length_of_recv_loop (assembled : List UInt8) (final_opcode : ℤ) (stream : List UInt8)
    {op : ℤ} {out rest : List UInt8}
    (h : recv_loop assembled final_opcode stream = .frame op out rest) :
    rest.length < stream.length := by
  fun_induction recv_loop assembled final_opcode stream with
  | case1 => cases h
  | case2 => cases h
  | case3 assembled final_opcode stream hne f left hread hcontrol =>
    obtain ⟨-, -, rfl⟩ := Received.frame.inj h
    exact length_of_read_fragment hread
  | case4 assembled final_opcode stream hne f left hread hcontrol op' assembled' hlt hfin =>
    obtain ⟨-, -, rfl⟩ := Received.frame.inj h
    exact hlt
  | case5 assembled final_opcode stream hne f left hread hcontrol op' assembled' hlt hfin ih =>
    exact Nat.lt_trans (ih h) hlt

/-- Calls of `recv_frame` until one returns no frame. -/
def decode (stream : List UInt8) : List (ℤ × List UInt8) :=
  match h : recv_frame stream with
  | .frame op out rest =>
    have : rest.length < stream.length := length_of_recv_loop _ _ _ h
    (op, out) :: decode rest
  | _ => []
termination_by stream.length

theorem recv_frame_nil : recv_frame [] = .timeout := by
  rw [recv_frame, recv_loop, if_pos rfl]

theorem decode_bytes {f : Frame} (hop : f.opcode ∈ opcodes) (hlen : f.payload.length < 2 ^ 31)
    (rest : List UInt8) :
    decode (f.bytes ++ rest) = ((f.opcode.toNat : ℤ), f.payload) :: decode rest := by
  have hrecv := recv_frame_bytes hop hlen rest
  rw [decode]
  split
  · rename_i op out left h
    rw [hrecv] at h
    obtain ⟨rfl, rfl, rfl⟩ := Received.frame.inj h
    rfl
  · rename_i hno
    exact absurd hrecv (hno _ _ _)

theorem decode_nil : decode [] = [] := by
  rw [decode]
  split
  · rename_i op out rest h
    rw [recv_frame_nil] at h
    cases h
  · rfl

/-- A frame that `send_frame` is given to carry data. -/
structure Data (f : Frame) : Prop where
  opcode : f.opcode = OP_TEXT ∨ f.opcode = OP_BINARY
  length : f.payload.length < 2 ^ 31

theorem Data.opcode_mem {f : Frame} (h : Data f) : f.opcode ∈ opcodes := by
  rcases h.opcode with hop | hop
  · rw [hop]
    decide
  · rw [hop]
    decide

/-- **Frames round-trip**: each frame that is sent is received with its opcode and payload, and the
bytes after it are left; so a sequence of data frames is received frame by frame. -/
theorem frames_round_trip :
    (∀ (f : Frame) (rest : List UInt8), f.opcode ∈ opcodes → f.payload.length < 2 ^ 31 →
      recv_frame (f.bytes ++ rest) = .frame f.opcode.toNat f.payload rest) ∧
    ∀ fs : List Frame, (∀ f ∈ fs, Data f) →
      decode (fs.flatMap Frame.bytes) = fs.map fun f => ((f.opcode.toNat : ℤ), f.payload) := by
  refine ⟨fun f rest hop hlen => recv_frame_bytes hop hlen rest, fun fs hfs => ?_⟩
  induction fs with
  | nil => exact decode_nil
  | cons f fs ih =>
    have hf := hfs f List.mem_cons_self
    rw [List.flatMap_cons, decode_bytes hf.opcode_mem hf.length, List.map_cons,
      ih fun g hg => hfs g (List.mem_cons_of_mem _ hg)]

/-- A text and an empty binary frame. -/
def greeting : List Frame :=
  [⟨OP_TEXT, [104, 105], fun i => UInt8.ofNat (i + 1)⟩, ⟨OP_BINARY, [], fun _ => 255⟩]

/-- The text with a byte after it, and the two frames in sequence. -/
theorem frames_round_trip_greeting :
    recv_frame ((⟨OP_TEXT, [104, 105], fun i => UInt8.ofNat (i + 1)⟩ : Frame).bytes ++ [7]) =
      .frame 1 [104, 105] [7] ∧
    decode (greeting.flatMap Frame.bytes) = [(1, [104, 105]), (2, [])] := by
  refine ⟨frames_round_trip.1 _ _ (by decide) (by decide), ?_⟩
  refine frames_round_trip.2 greeting fun f hf => ?_
  simp only [greeting, List.mem_cons, List.not_mem_nil, or_false] at hf
  rcases hf with rfl | rfl
  · exact ⟨Or.inl rfl, by decide⟩
  · exact ⟨Or.inr rfl, by decide⟩

end Meridian.WsFrames
