import Mathlib.Data.List.Basic
import Mathlib.Data.Nat.Basic
import Mathlib.Tactic.Common

/-!
# `SpscQueue<T, N>`: the ring buffer holds a bounded FIFO

Model of `exchange/cpp/include/spsc_queue.h`, each of `push` and `pop` as one call: the slots, the
two positions and the mask arithmetic on them.

* `push` (`spsc_queue.h:80-96`): drops the item and returns `false` when the next write position
  is the read position.
* `pop` (`spsc_queue.h:100-114`): returns `false` when both positions are equal.

Results, over the list of queued items (`contents`):
* `full_iff`, `contents_push`: a push is refused iff `N - 1` items are queued, and otherwise appends its
  item;
* `pop_eq_none`, `contents_pop`: a pop fails iff nothing is queued, and otherwise takes the oldest
  item.
-/

namespace Meridian

variable {α : Type} {N : ℕ}

/-- The two `static_assert`s on `N`. -/
structure RingSize (N : ℕ) : Prop where
  pow_two : N &&& (N - 1) = 0
  two_le : 2 ≤ N

/-- The slots `buf_` and the two positions, which never leave the ring. -/
structure SpscQueue (α : Type) (N : ℕ) where
  buf : Fin N → α
  write_pos : Fin N
  read_pos : Fin N

namespace SpscQueue

/-- `(p + 1u) & kMask`. -/
def next (p : Fin N) : Fin N :=
  ⟨(p + 1) &&& (N - 1), lt_of_le_of_lt Nat.and_le_right (Nat.sub_one_lt_of_lt p.isLt)⟩

/-- A new queue: both positions at slot 0. -/
def empty (hN : RingSize N) (default : α) : SpscQueue α N :=
  { buf := fun _ => default, write_pos := ⟨0, by have := hN.two_le; omega⟩,
    read_pos := ⟨0, by have := hN.two_le; omega⟩ }

/-- The test of `push`: the next write position is the read position. -/
def full (q : SpscQueue α N) : Bool := decide (next q.write_pos = q.read_pos)

/-- `push` (`spsc_queue.h:80-96`). -/
def push (q : SpscQueue α N) (item : α) : SpscQueue α N × Bool :=
  if q.full then (q, false)
  else
    ({ q with
        buf := fun i => if i = q.write_pos then item else q.buf i
        write_pos := next q.write_pos }, true)

/-- `pop` (`spsc_queue.h:100-114`), `none` for `false`. -/
def pop (q : SpscQueue α N) : Option (α × SpscQueue α N) :=
  if q.read_pos = q.write_pos then none
  else some (q.buf q.read_pos, { q with read_pos := next q.read_pos })

/-- How many items are queued: the distance from the read to the write position. -/
def size (q : SpscQueue α N) : ℕ := (q.write_pos + N - q.read_pos) % N

/-- The slot `i` places after `p`. -/
def slot (p : Fin N) (i : ℕ) : Fin N := ⟨(p + i) % N, Nat.mod_lt _ (by have := p.isLt; omega)⟩

/-- The queued items, oldest first. -/
def contents (q : SpscQueue α N) : List α :=
  (List.range q.size).map fun i => q.buf (slot q.read_pos i)

/-! ## Positions modulo `N` -/

/-- The mask is the remainder. -/
theorem and_mask (hN : RingSize N) (x : ℕ) : x &&& (N - 1) = x % N := by
  have hne : N ≠ 0 := by have := hN.two_le; omega
  obtain ⟨k, rfl⟩ := (Nat.and_sub_one_eq_zero_iff_isPowerOfTwo hne).mp hN.pow_two
  exact Nat.and_two_pow_sub_one_eq_mod x k

theorem next_val (hN : RingSize N) (p : Fin N) :
    (next p).val = if p.val + 1 = N then 0 else p.val + 1 := by
  have hp := p.isLt
  have h : (next p).val = (p.val + 1) % N := and_mask hN _
  rw [h]
  split
  · rename_i he
    rw [he, Nat.mod_self]
  · exact Nat.mod_eq_of_lt (by omega)

/-- The distance between two positions, without the remainder. -/
theorem size_eq (q : SpscQueue α N) :
    q.size = if q.read_pos.val ≤ q.write_pos.val then q.write_pos.val - q.read_pos.val
      else q.write_pos.val + N - q.read_pos.val := by
  have hr := q.read_pos.isLt
  have hw := q.write_pos.isLt
  unfold size
  split
  · have h : q.write_pos.val + N - q.read_pos.val = q.write_pos.val - q.read_pos.val + N := by omega
    rw [h, Nat.add_mod_right, Nat.mod_eq_of_lt (by omega)]
  · exact Nat.mod_eq_of_lt (by omega)

theorem slot_val (p : Fin N) {i : ℕ} (hi : i < N) :
    (slot p i).val = if p.val + i < N then p.val + i else p.val + i - N := by
  have hp := p.isLt
  simp only [slot]
  split
  · exact Nat.mod_eq_of_lt (by assumption)
  · rw [Nat.mod_eq_sub_mod (by omega), Nat.mod_eq_of_lt (by omega)]

theorem slot_next (hN : RingSize N) (p : Fin N) {i : ℕ} (hi : i + 1 < N) :
    slot (next p) i = slot p (i + 1) := by
  apply Fin.ext
  have hp := p.isLt
  rw [slot_val _ (by omega), slot_val _ hi, next_val hN]
  split <;> split <;> split <;> omega

theorem size_lt (q : SpscQueue α N) : q.size < N := by
  have hr := q.read_pos.isLt
  exact Nat.mod_lt _ (by omega)

/-- The slot after the newest item is the write position. -/
theorem slot_size (q : SpscQueue α N) : slot q.read_pos q.size = q.write_pos := by
  apply Fin.ext
  have hr := q.read_pos.isLt
  have hw := q.write_pos.isLt
  rw [slot_val _ q.size_lt, size_eq]
  split <;> split <;> omega

/-- No queued item lies in the slot that `push` writes. -/
theorem slot_ne_write (q : SpscQueue α N) {i : ℕ} (hi : i < q.size) :
    slot q.read_pos i ≠ q.write_pos := by
  intro h
  have hv := congrArg Fin.val h
  have hr := q.read_pos.isLt
  have hw := q.write_pos.isLt
  have hs := q.size_lt
  rw [size_eq] at hi hs
  rw [slot_val _ (by omega)] at hv
  split at hv <;> split at hi <;> omega

/-! ## The FIFO -/

@[simp] theorem length_contents (q : SpscQueue α N) : q.contents.length = q.size := by
  simp [contents]

@[simp] theorem contents_empty (hN : RingSize N) (default : α) :
    (empty hN default).contents = [] := by
  have h : (empty hN default).size = 0 := by simp [size_eq, empty]
  simp [contents, h]

theorem full_iff (hN : RingSize N) (q : SpscQueue α N) : q.full = true ↔ q.size = N - 1 := by
  have hr := q.read_pos.isLt
  have hw := q.write_pos.isLt
  have h2 := hN.two_le
  rw [full, decide_eq_true_eq, ← Fin.val_inj, next_val hN, size_eq]
  split <;> split <;> omega

/-- No queued item lies in the slot at the write position, so writing there changes none. -/
theorem contents_write (q : SpscQueue α N) (buf : Fin N → α)
    (h : ∀ p, p ≠ q.write_pos → buf p = q.buf p) : ({ q with buf := buf } : SpscQueue α N).contents =
      q.contents :=
  List.map_congr_left fun _ hi => h _ (q.slot_ne_write (List.mem_range.mp hi))

/-- The item at the write position is queued once the position moves on. -/
theorem contents_grow (hN : RingSize N) {q : SpscQueue α N} (h : q.full = false) :
    ({ q with write_pos := next q.write_pos } : SpscQueue α N).contents =
      q.contents ++ [q.buf q.write_pos] := by
  have hr := q.read_pos.isLt
  have hw := q.write_pos.isLt
  have hfull : ¬ q.size = N - 1 := fun he => by simp [(full_iff hN q).mpr he] at h
  have hsize : SpscQueue.size { q with write_pos := next q.write_pos } = q.size + 1 := by
    rw [size_eq] at hfull
    rw [size_eq, size_eq, next_val hN]
    simp only
    split at hfull <;> split <;> split <;> omega
  rw [contents, hsize, List.range_succ, List.map_append, List.map_singleton, contents]
  simp only
  rw [q.slot_size]

/-- **A push that succeeds appends its item.** -/
theorem contents_push (hN : RingSize N) {q : SpscQueue α N} (h : q.full = false) (item : α) :
    (q.push item).1.contents = q.contents ++ [item] := by
  have hpush : q.push item = ({ q with
      buf := fun i => if i = q.write_pos then item else q.buf i
      write_pos := next q.write_pos }, true) := by
    rw [push, if_neg (by simp [h])]
  have hwrite : ({ q with buf := fun i => if i = q.write_pos then item else q.buf i } :
      SpscQueue α N).contents = q.contents := q.contents_write _ fun p hp => if_neg hp
  have hgrow := contents_grow hN
    (q := { q with buf := fun i => if i = q.write_pos then item else q.buf i }) h
  rw [hwrite] at hgrow
  rw [hpush]
  simpa using hgrow

/-- `pop` returns `false` iff nothing is queued. -/
theorem pop_eq_none {q : SpscQueue α N} : q.pop = none ↔ q.contents = [] := by
  have hr := q.read_pos.isLt
  have hw := q.write_pos.isLt
  have hsize : q.read_pos = q.write_pos ↔ q.size = 0 := by
    rw [← Fin.val_inj, size_eq]
    split <;> omega
  rw [← List.length_eq_zero_iff, length_contents, ← hsize, pop]
  split <;> simp_all

/-- **A pop takes the oldest item.** -/
theorem contents_pop (hN : RingSize N) {q q' : SpscQueue α N} {item : α}
    (h : q.pop = some (item, q')) : q.contents = item :: q'.contents := by
  have hr := q.read_pos.isLt
  have hw := q.write_pos.isLt
  unfold pop at h
  split at h
  · exact absurd h (by simp)
  · rename_i hne
    obtain ⟨rfl, rfl⟩ := Prod.mk.inj (Option.some.inj h)
    have hne' : q.read_pos.val ≠ q.write_pos.val := fun he => hne (Fin.ext he)
    have hsize : q.size = SpscQueue.size { q with read_pos := next q.read_pos } + 1 := by
      rw [size_eq, size_eq]
      simp only [next_val hN]
      split <;> split <;> split at * <;> omega
    have hlt := q.size_lt
    rw [contents, hsize, List.range_succ_eq_map, List.map_cons, List.map_map, contents]
    congr 1
    · congr 1
      apply Fin.ext
      rw [slot_val _ (by omega)]
      split <;> omega
    · refine List.map_congr_left fun i hi => ?_
      have hi' := List.mem_range.mp hi
      simp only [Function.comp, Nat.succ_eq_add_one]
      rw [slot_next hN _ (by omega)]

end SpscQueue

end Meridian
