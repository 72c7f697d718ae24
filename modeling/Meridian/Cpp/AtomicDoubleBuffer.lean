import Mathlib.Data.Fintype.Basic
import Mathlib.Logic.Function.Basic
import Meridian.Cpp.Seqlock

/-!
# `AtomicDoubleBuffer<T>`: three slots, one writer

Model of `exchange/cpp/include/atomic_double_buffer.h` (93-164). A `T` is `n` words, copied one at a
time; every access to a word of `buf_`, to `packed_` and to `reader_slot_` is one step, and the steps
interleave freely (sequential consistency). `writer_slot_` is the writer's own, so its read is part
of the step that uses it. The readers are the threads `T`: the buffer is made for one, and the io
thread of `gate_connector.cpp` is a second one.

Results:
* `inv_of_reaches`: which thread owns which slot, in every run in which a load that has found new
  data overlaps no other;
* `latest_value`: with one reader that is every run, and each `load` returns the value of the last
  `store` whose exchange came before the step at which it chose its slot.
-/

namespace Meridian.AtomicDoubleBuffer

open Meridian.Run
open Seqlock (copyWord Copied)

variable {n : ℕ} {W T : Type}

/-- A `T`, word by word. -/
abbrev Value (n : ℕ) (W : Type) := Fin n → W

/-- The lower two bits of `packed_` are a slot. -/
def kSlotMask : UInt32 := 0x3

/-- The bit of `packed_` that tells of new data. -/
def kNewDataFlag : UInt32 := 0x4

/-- Where `store` stands. -/
inductive StorePc (n : ℕ) (W : Type) where
  | idle
  /-- the words before `i` are written; at `n`, before the exchange -/
  | writing (val : Value n W) (i : ℕ)
  /-- before `writer_slot_` is set -/
  | exchanged (old : UInt32)

/-- Where a `load` stands. History: from the step at which it chose its slot, the number of
exchanges of the writer before that step. -/
inductive LoadPc (n : ℕ) (W : Type) where
  | idle
  /-- before the peek -/
  | entered
  /-- the flag was set, before the read of `reader_slot_` -/
  | found
  /-- before the exchange -/
  | offering (slot : UInt32)
  /-- before `reader_slot_` is set -/
  | swapped (old : UInt32) (since : ℕ)
  /-- before the read of `reader_slot_` in `buf_[reader_slot_]` -/
  | chosen (since : ℕ)
  /-- the words before `i` are read -/
  | reading (slot : UInt32) (i : ℕ) (out : Value n W) (since : ℕ)
  | returned (out : Value n W) (since : ℕ)

/-- Past its peek, and not yet back. -/
def LoadPc.inside : LoadPc n W → Bool
  | .idle | .entered | .returned _ _ => false
  | _ => true

/-- From the peek that found new data until `reader_slot_` is set. -/
def LoadPc.swapping : LoadPc n W → Bool
  | .found | .offering _ | .swapped _ _ => true
  | _ => false

/-- What a completed load has returned, and the exchanges it has seen. -/
structure Loaded (n : ℕ) (W T : Type) where
  thread : T
  since : ℕ
  out : Value n W

/-- The buffer and its threads. History: the values exchanged in so far, after the initial one, and
the completed loads. -/
structure State (n : ℕ) (W T : Type) where
  buf : UInt32 → Value n W
  packed : UInt32
  writer_slot : UInt32
  reader_slot : UInt32
  writer : StorePc n W
  reader : T → LoadPc n W
  published : List (Value n W)
  loads : List (Loaded n W T)

/-- `AtomicDoubleBuffer(init)`. -/
def init (v : Value n W) : State n W T :=
  { buf := fun _ => v, packed := 1, writer_slot := 2, reader_slot := 0, writer := .idle
    reader := fun _ => .idle, published := [v], loads := [] }

/-- The steps of `store` and of a thread's `load`. The argument of `loadIndex` is what the returned
object holds before it is written. -/
inductive Act (n : ℕ) (W T : Type) where
  | storeEnter (val : Value n W)
  | storeWord
  | storeExchange
  | storeUpdate
  | loadEnter (t : T)
  | loadPeek (t : T)
  | loadOffer (t : T)
  | loadExchange (t : T)
  | loadUpdate (t : T)
  | loadIndex (t : T) (out : Value n W)
  | loadWord (t : T)
  | loadReturn (t : T)

variable [DecidableEq T]

/-- A reader moves on. -/
def State.move (s : State n W T) (t : T) (pc : LoadPc n W) : State n W T :=
  { s with reader := Function.update s.reader t pc }

theorem move_reader_self (s : State n W T) (t : T) (pc : LoadPc n W) :
    (s.move t pc).reader t = pc := Function.update_self ..

theorem move_reader_of_ne {s : State n W T} {t u : T} (h : u ≠ t) (pc : LoadPc n W) :
    (s.move t pc).reader u = s.reader u := Function.update_of_ne h ..

/-- One step, where the thread it belongs to is at that place. -/
def next (s : State n W T) : Act n W T → Option (State n W T)
  | .storeEnter val =>
    match s.writer with
    | .idle => some { s with writer := .writing val 0 }
    | _ => none
  | .storeWord =>
    match s.writer with
    | .writing val i =>
      if i < n then
        some { s with
          buf := Function.update s.buf s.writer_slot (copyWord (s.buf s.writer_slot) val i)
          writer := .writing val (i + 1) }
      else none
    | _ => none
  | .storeExchange =>
    match s.writer with
    | .writing val i =>
      if i = n then
        some { s with
          packed := s.writer_slot ||| kNewDataFlag
          writer := .exchanged s.packed
          published := s.published ++ [val] }
      else none
    | _ => none
  | .storeUpdate =>
    match s.writer with
    | .exchanged old => some { s with writer_slot := old &&& kSlotMask, writer := .idle }
    | _ => none
  | .loadEnter t =>
    match s.reader t with
    | .idle | .returned _ _ => some (s.move t .entered)
    | _ => none
  | .loadPeek t =>
    match s.reader t with
    | .entered =>
      if s.packed &&& kNewDataFlag ≠ 0 then some (s.move t .found)
      else some (s.move t (.chosen (s.published.length - 1)))
    | _ => none
  | .loadOffer t =>
    match s.reader t with
    | .found => some (s.move t (.offering s.reader_slot))
    | _ => none
  | .loadExchange t =>
    match s.reader t with
    | .offering slot =>
      some { s.move t (.swapped s.packed (s.published.length - 1)) with packed := slot }
    | _ => none
  | .loadUpdate t =>
    match s.reader t with
    | .swapped old since =>
      some { s.move t (.chosen since) with reader_slot := old &&& kSlotMask }
    | _ => none
  | .loadIndex t out =>
    match s.reader t with
    | .chosen since => some (s.move t (.reading s.reader_slot 0 out since))
    | _ => none
  | .loadWord t =>
    match s.reader t with
    | .reading slot i out since =>
      if i < n then some (s.move t (.reading slot (i + 1) (copyWord out (s.buf slot) i) since))
      else none
    | _ => none
  | .loadReturn t =>
    match s.reader t with
    | .reading _ i out since =>
      if i = n then
        some { s.move t (.returned out since) with loads := s.loads ++ [⟨t, since, out⟩] }
      else none
    | _ => none

/-- A load that has found new data overlaps no other one past its peek. -/
def Apart (s : State n W T) : Act n W T → Prop
  | .loadPeek t =>
    if s.packed &&& kNewDataFlag ≠ 0 then ∀ u, u ≠ t → (s.reader u).inside = false
    else ∀ u, u ≠ t → (s.reader u).swapping = false
  | _ => True

instance [Fintype T] (s : State n W T) (a : Act n W T) : Decidable (Apart s a) := by
  unfold Apart
  split <;> infer_instance

/-! ## What a step can be -/

/-- The steps, each with what it needs. -/
inductive Step (s : State n W T) : Act n W T → State n W T → Prop
  | storeEnter (val : Value n W) (hw : s.writer = .idle) :
    Step s (.storeEnter val) { s with writer := .writing val 0 }
  | storeWord (val : Value n W) (i : ℕ) (hw : s.writer = .writing val i) (hi : i < n) :
    Step s .storeWord { s with
      buf := Function.update s.buf s.writer_slot (copyWord (s.buf s.writer_slot) val i)
      writer := .writing val (i + 1) }
  | storeExchange (val : Value n W) (hw : s.writer = .writing val n) :
    Step s .storeExchange { s with
      packed := s.writer_slot ||| kNewDataFlag
      writer := .exchanged s.packed
      published := s.published ++ [val] }
  | storeUpdate (old : UInt32) (hw : s.writer = .exchanged old) :
    Step s .storeUpdate { s with writer_slot := old &&& kSlotMask, writer := .idle }
  | loadEnter (t : T) (ht : (s.reader t).inside = false) :
    Step s (.loadEnter t) (s.move t .entered)
  | loadFound (t : T) (ht : s.reader t = .entered) (hp : s.packed &&& kNewDataFlag ≠ 0) :
    Step s (.loadPeek t) (s.move t .found)
  | loadStale (t : T) (ht : s.reader t = .entered) (hp : s.packed &&& kNewDataFlag = 0) :
    Step s (.loadPeek t) (s.move t (.chosen (s.published.length - 1)))
  | loadOffer (t : T) (ht : s.reader t = .found) :
    Step s (.loadOffer t) (s.move t (.offering s.reader_slot))
  | loadExchange (t : T) (slot : UInt32) (ht : s.reader t = .offering slot) :
    Step s (.loadExchange t)
      { s.move t (.swapped s.packed (s.published.length - 1)) with packed := slot }
  | loadUpdate (t : T) (old : UInt32) (since : ℕ) (ht : s.reader t = .swapped old since) :
    Step s (.loadUpdate t) { s.move t (.chosen since) with reader_slot := old &&& kSlotMask }
  | loadIndex (t : T) (out : Value n W) (since : ℕ) (ht : s.reader t = .chosen since) :
    Step s (.loadIndex t out) (s.move t (.reading s.reader_slot 0 out since))
  | loadWord (t : T) (slot : UInt32) (i : ℕ) (out : Value n W) (since : ℕ)
      (ht : s.reader t = .reading slot i out since) (hi : i < n) :
    Step s (.loadWord t) (s.move t (.reading slot (i + 1) (copyWord out (s.buf slot) i) since))
  | loadReturn (t : T) (slot : UInt32) (out : Value n W) (since : ℕ)
      (ht : s.reader t = .reading slot n out since) :
    Step s (.loadReturn t)
      { s.move t (.returned out since) with loads := s.loads ++ [⟨t, since, out⟩] }

variable {s s' : State n W T} {a : Act n W T}

theorem step_of_next (h : next s a = some s') : Step s a s' := by
  cases a with
  | storeEnter val =>
    simp only [next] at h
    split at h
    · rename_i hw
      exact Option.some.inj h ▸ .storeEnter val hw
    · cases h
  | storeWord =>
    simp only [next] at h
    split at h
    · rename_i val i hw
      obtain ⟨hi, ⟨⟩⟩ := Option.ite_none_right_eq_some.mp h
      exact .storeWord val i hw hi
    · cases h
  | storeExchange =>
    simp only [next] at h
    split at h
    · rename_i val i hw
      obtain ⟨rfl, ⟨⟩⟩ := Option.ite_none_right_eq_some.mp h
      exact .storeExchange val hw
    · cases h
  | storeUpdate =>
    simp only [next] at h
    split at h
    · rename_i old hw
      exact Option.some.inj h ▸ .storeUpdate old hw
    · cases h
  | loadEnter t =>
    simp only [next] at h
    split at h
    · rename_i ht
      exact Option.some.inj h ▸ .loadEnter t (by rw [ht]; rfl)
    · rename_i ht
      exact Option.some.inj h ▸ .loadEnter t (by rw [ht]; rfl)
    · cases h
  | loadPeek t =>
    simp only [next] at h
    split at h
    · rename_i ht
      split at h
      · rename_i hp
        exact Option.some.inj h ▸ .loadFound t ht hp
      · rename_i hp
        exact Option.some.inj h ▸ .loadStale t ht (not_not.mp hp)
    · cases h
  | loadOffer t =>
    simp only [next] at h
    split at h
    · rename_i ht
      exact Option.some.inj h ▸ .loadOffer t ht
    · cases h
  | loadExchange t =>
    simp only [next] at h
    split at h
    · rename_i slot ht
      exact Option.some.inj h ▸ .loadExchange t slot ht
    · cases h
  | loadUpdate t =>
    simp only [next] at h
    split at h
    · rename_i old since ht
      exact Option.some.inj h ▸ .loadUpdate t old since ht
    · cases h
  | loadIndex t out =>
    simp only [next] at h
    split at h
    · rename_i since ht
      exact Option.some.inj h ▸ .loadIndex t out since ht
    · cases h
  | loadWord t =>
    simp only [next] at h
    split at h
    · rename_i slot i out since ht
      obtain ⟨hi, ⟨⟩⟩ := Option.ite_none_right_eq_some.mp h
      exact .loadWord t slot i out since ht hi
    · cases h
  | loadReturn t =>
    simp only [next] at h
    split at h
    · rename_i slot i out since ht
      obtain ⟨rfl, ⟨⟩⟩ := Option.ite_none_right_eq_some.mp h
      exact .loadReturn t slot out since ht
    · cases h

/-- The thread whose `load` the step belongs to. -/
def Act.loader : Act n W T → Option T
  | .storeEnter _ | .storeWord | .storeExchange | .storeUpdate => none
  | .loadEnter t | .loadPeek t | .loadOffer t | .loadExchange t | .loadUpdate t | .loadIndex t _
  | .loadWord t | .loadReturn t => some t

/-- A step of a `load` leaves the writer and the other readers alone. -/
theorem Step.of_load {t : T} (h : Step s a s') (ha : a.loader = some t) :
    s'.writer = s.writer ∧ s'.published = s.published ∧ s'.writer_slot = s.writer_slot ∧
      ∀ u, u ≠ t → s'.reader u = s.reader u := by
  cases h <;> cases ha <;> exact ⟨rfl, rfl, rfl, fun u hu => move_reader_of_ne hu _⟩

/-- The exchanges a load has seen, once it has chosen its slot. -/
def LoadPc.since? : LoadPc n W → Option ℕ
  | .swapped _ since | .chosen since | .reading _ _ _ since | .returned _ since => some since
  | _ => none

/-- What holds of where a reader stands after a move held before, or it is the one that moved. -/
theorem of_move {p : LoadPc n W → Prop} {t u : T} {pc : LoadPc n W}
    (h : p ((s.move u pc).reader t)) : t = u ∧ p pc ∨ p (s.reader t) := by
  by_cases hu : t = u
  · subst hu
    rw [move_reader_self] at h
    exact Or.inl ⟨rfl, h⟩
  · rw [move_reader_of_ne hu] at h
    exact Or.inr h

theorem since_of_move {t u : T} {pc : LoadPc n W} {since : ℕ}
    (h : ((s.move u pc).reader t).since? = some since) :
    t = u ∧ pc.since? = some since ∨ (s.reader t).since? = some since :=
  of_move (p := fun pc => pc.since? = some since) h

/-- A load chooses its slot at one step, and all exchanges so far come before it. -/
theorem Step.since {t : T} {since : ℕ} (h : Step s a s') (hs : (s'.reader t).since? = some since) :
    (s.reader t).since? = some since ∨ since = s.published.length - 1 := by
  cases h with
  | storeEnter | storeWord | storeExchange | storeUpdate => exact Or.inl hs
  | loadEnter u ht | loadFound u ht hp | loadOffer u ht =>
    rcases since_of_move hs with ⟨-, hpc⟩ | hs
    · cases hpc
    · exact Or.inl hs
  | loadStale u ht hp =>
    rcases since_of_move hs with ⟨-, hpc⟩ | hs
    · exact Or.inr (Option.some.inj hpc).symm
    · exact Or.inl hs
  | loadExchange u slot ht =>
    rcases since_of_move (s := s) hs with ⟨-, hpc⟩ | hs
    · exact Or.inr (Option.some.inj hpc).symm
    · exact Or.inl hs
  | loadUpdate u old since' ht | loadReturn u slot out since' ht =>
    rcases since_of_move (s := s) hs with ⟨rfl, hpc⟩ | hs
    · exact Or.inl (ht ▸ hpc)
    · exact Or.inl hs
  | loadIndex u out since' ht | loadWord u slot i out since' ht hi =>
    rcases since_of_move hs with ⟨rfl, hpc⟩ | hs
    · exact Or.inl (ht ▸ hpc)
    · exact Or.inl hs

theorem returned_of_move {t u : T} {pc : LoadPc n W} {out : Value n W} {since : ℕ}
    (h : (s.move u pc).reader t = .returned out since) :
    t = u ∧ pc = .returned out since ∨ s.reader t = .returned out since :=
  of_move (p := fun pc => pc = .returned out since) h

/-- What a load has returned is recorded. -/
theorem Step.returned {t : T} {out : Value n W} {since : ℕ} (h : Step s a s')
    (hr : s'.reader t = .returned out since) :
    s.reader t = .returned out since ∨ ⟨t, since, out⟩ ∈ s'.loads := by
  cases h with
  | storeEnter | storeWord | storeExchange | storeUpdate => exact Or.inl hr
  | loadReturn u slot out' since' ht =>
    rcases returned_of_move (s := s) hr with ⟨rfl, hpc⟩ | hr
    · cases hpc
      exact Or.inr (List.mem_append_right _ (List.mem_singleton.mpr rfl))
    · exact Or.inl hr
  | loadEnter u ht | loadFound u ht hp | loadStale u ht hp | loadOffer u ht =>
    exact (returned_of_move (s := s) hr).elim (fun h => by cases h.2) Or.inl
  | loadExchange u slot ht | loadUpdate u old since' ht | loadIndex u out' since' ht =>
    exact (returned_of_move (s := s) hr).elim (fun h => by cases h.2) Or.inl
  | loadWord u slot i out' since' ht hi =>
    exact (returned_of_move (s := s) hr).elim (fun h => by cases h.2) Or.inl

/-! ## Slots -/

/-- `packed_` with this shared slot and flag. -/
def pack (shared : UInt32) (fresh : Bool) : UInt32 :=
  if fresh then shared ||| kNewDataFlag else shared

/-- The writer's, the readers' and the shared slot are the three slots, in some order. -/
def Owned (w r shared : UInt32) : Prop := [w, r, shared].Perm [0, 1, 2]

namespace Owned

variable {w r shared : UInt32}

theorem shared_mem (h : Owned w r shared) : shared ∈ [0, 1, 2] := h.subset (by simp)

theorem distinct (h : Owned w r shared) : r ≠ w ∧ shared ≠ w ∧ r ≠ shared := by
  have hnd : [w, r, shared].Nodup := h.nodup_iff.mpr (by decide)
  simp only [List.nodup_cons, List.mem_cons, List.not_mem_nil, or_false, not_or] at hnd
  exact ⟨fun he => hnd.1.1 he.symm, fun he => hnd.1.2 he.symm, hnd.2.1⟩

/-- The writer gives its slot for the shared one. -/
theorem exchange_writer (h : Owned w r shared) : Owned shared r w := by
  have hswap : [shared, r, w].Perm [w, r, shared] := by
    refine ((List.Perm.swap w r []).cons shared).trans ?_
    exact (List.Perm.swap w shared [r]).trans ((List.Perm.swap r shared []).cons w)
  exact hswap.trans h

/-- A reader gives the readers' slot for the shared one. -/
theorem exchange_reader (h : Owned w r shared) : Owned w shared r :=
  ((List.Perm.swap r shared []).cons w).trans h

theorem mask_pack (h : Owned w r shared) (fresh : Bool) : pack shared fresh &&& kSlotMask = shared := by
  have hm := h.shared_mem
  simp only [List.mem_cons, List.not_mem_nil, or_false] at hm
  rcases hm with rfl | rfl | rfl <;> cases fresh <;> rfl

theorem flag_pack (h : Owned w r shared) (fresh : Bool) :
    pack shared fresh &&& kNewDataFlag ≠ 0 ↔ fresh = true := by
  have hm := h.shared_mem
  simp only [List.mem_cons, List.not_mem_nil, or_false] at hm
  rcases hm with rfl | rfl | rfl <;> cases fresh <;> decide

end Owned

/-! ## The invariant -/

/-- What the writer keeps: `w` is its slot, and inside `store` the words written so far are those of
the argument. -/
def WriterOk (s : State n W T) (w : UInt32) : Prop :=
  match s.writer with
  | .idle => s.writer_slot = w
  | .writing val i => s.writer_slot = w ∧ i ≤ n ∧ Copied (s.buf w) val i
  | .exchanged old => old &&& kSlotMask = w

/-- What a load keeps while `r` is the readers' slot and holds value number `k`. -/
def ReaderOk (r : UInt32) (value : Value n W) (fresh : Bool) (k : ℕ) : LoadPc n W → Prop
  | .found => fresh = true
  | .offering slot => fresh = true ∧ slot = r
  | .swapped old since => old &&& kSlotMask = r ∧ since = k
  | .chosen since => since = k
  | .reading slot i out since => slot = r ∧ since = k ∧ i ≤ n ∧ Copied out value i
  | _ => True

/-- Who owns what: the slots `w`, `r` and `shared` are the writer's, the readers' and that in
`packed_`, up to an update of `writer_slot_` or `reader_slot_` still to come. The readers' slot holds
value number `k`; with the flag set the shared slot holds the last value, else that one is number
`k`. -/
structure Inv (s : State n W T) (w r shared : UInt32) (fresh : Bool) (k : ℕ) : Prop where
  slots : Owned w r shared
  packed : s.packed = pack shared fresh
  writer : WriterOk s w
  taken : s.published[k]? = some (s.buf r)
  last : fresh = true → s.published[s.published.length - 1]? = some (s.buf shared)
  stale : fresh = false → k = s.published.length - 1
  readers : ∀ t, ReaderOk r (s.buf r) fresh k (s.reader t)
  reader_slot : (∀ t old since, s.reader t ≠ .swapped old since) → s.reader_slot = r
  alone : ∀ t u, (s.reader t).swapping = true → u ≠ t → (s.reader u).inside = false
  loads : ∀ l ∈ s.loads, s.published[l.since]? = some l.out ∧ l.since ≤ k
  monotone : (s.loads.map Loaded.since).Pairwise (· ≤ ·)

theorem inside_of_swapping {pc : LoadPc n W} (h : pc.swapping = true) : pc.inside = true := by
  cases pc <;> first | rfl | cases h

theorem ReaderOk.of_outside {r : UInt32} {value : Value n W} {fresh : Bool} {k : ℕ}
    {pc : LoadPc n W} (h : pc.inside = false) : ReaderOk r value fresh k pc := by
  cases pc with
  | idle | entered | returned out since => trivial
  | _ => cases h

/-- Setting the flag takes nothing from a load. -/
theorem ReaderOk.flag {r : UInt32} {value : Value n W} {fresh : Bool} {k : ℕ} {pc : LoadPc n W}
    (h : ReaderOk r value fresh k pc) : ReaderOk r value true k pc := by
  cases pc with
  | found => rfl
  | offering slot => exact ⟨rfl, h.2⟩
  | idle | entered | swapped old since | chosen since | reading slot i out since
  | returned out since => exact h

section

variable {w r shared : UInt32} {fresh : Bool} {k : ℕ} {t : T}

omit [DecidableEq T] in
/-- While a load is past its peek, no other one swaps. -/
theorem Inv.not_swapping (h : Inv s w r shared fresh k) (ht : (s.reader t).inside = true) (u : T)
    (hu : u ≠ t) : (s.reader u).swapping = false := by
  by_contra hne
  rw [Bool.not_eq_false] at hne
  exact Bool.false_ne_true ((h.alone u t hne hu.symm).symm.trans ht)

/-- A load that is past its peek and not before an update of `reader_slot_` finds the readers' slot
there. -/
theorem Inv.reader_slot_eq (h : Inv s w r shared fresh k) (ht : (s.reader t).inside = true)
    (hns : ∀ old since, s.reader t ≠ .swapped old since) : s.reader_slot = r := by
  refine h.reader_slot fun u old since hu => ?_
  by_cases hut : u = t
  · subst hut
    exact hns old since hu
  · have := h.not_swapping ht u hut
    rw [hu] at this
    cases this

/-- One reader moves on and the slots stay. -/
theorem Inv.move (h : Inv s w r shared fresh k) (pc : LoadPc n W)
    (hok : ReaderOk r (s.buf r) fresh k pc) (hold : ∀ old since, s.reader t ≠ .swapped old since)
    (hswap : pc.swapping = true → ∀ u, u ≠ t → (s.reader u).inside = false)
    (hin : pc.inside = true → ∀ u, u ≠ t → (s.reader u).swapping = false) :
    Inv (s.move t pc) w r shared fresh k where
  slots := h.slots
  packed := h.packed
  writer := h.writer
  taken := h.taken
  last := h.last
  stale := h.stale
  readers u := by
    by_cases hu : u = t
    · subst hu
      rwa [move_reader_self]
    · rw [move_reader_of_ne hu]
      exact h.readers u
  reader_slot hns := by
    refine h.reader_slot fun u old since hu => ?_
    by_cases hut : u = t
    · subst hut
      exact hold old since hu
    · exact hns u old since (by rwa [move_reader_of_ne hut])
  alone u v hu hv := by
    by_cases hut : u = t
    · subst hut
      rw [move_reader_self] at hu
      rw [move_reader_of_ne hv]
      exact hswap hu v hv
    · rw [move_reader_of_ne hut] at hu
      by_cases hvt : v = t
      · subst hvt
        rw [move_reader_self, ← Bool.not_eq_true]
        exact fun hp => Bool.false_ne_true ((hin hp u hut).symm.trans hu)
      · rw [move_reader_of_ne hvt]
        exact h.alone u v hu hv
  loads := h.loads
  monotone := h.monotone

omit [DecidableEq T] in
/-- The writer changes its own slot only. -/
theorem Inv.storeWord (h : Inv s w r shared fresh k) {val : Value n W} {i : ℕ}
    (hw : s.writer = .writing val i) (hi : i < n) :
    Inv { s with
      buf := Function.update s.buf s.writer_slot (copyWord (s.buf s.writer_slot) val i)
      writer := .writing val (i + 1) } w r shared fresh k := by
  have hwriter := h.writer
  rw [WriterOk, hw] at hwriter
  obtain ⟨hslot, -, hcopy⟩ := hwriter
  obtain ⟨hr, hshared, -⟩ := h.slots.distinct
  have hbufr : Function.update s.buf s.writer_slot (copyWord (s.buf s.writer_slot) val i) r =
      s.buf r := Function.update_of_ne (hslot.symm ▸ hr) ..
  have hbufs : Function.update s.buf s.writer_slot (copyWord (s.buf s.writer_slot) val i) shared =
      s.buf shared := Function.update_of_ne (hslot.symm ▸ hshared) ..
  refine ⟨h.slots, h.packed, ⟨hslot, hi, ?_⟩, ?_, fun hf => ?_, h.stale, fun t => ?_,
    h.reader_slot, h.alone, h.loads, h.monotone⟩
  · simp only
    rw [← hslot, Function.update_self]
    exact (hslot.symm ▸ hcopy).copyWord
  · simp only
    rw [hbufr]
    exact h.taken
  · simp only
    rw [hbufs]
    exact h.last hf
  · simp only
    rw [hbufr]
    exact h.readers t

omit [DecidableEq T] in
/-- **The writer's exchange**: its slot becomes the shared one and holds the last value. -/
theorem Inv.storeExchange (h : Inv s w r shared fresh k) {val : Value n W}
    (hw : s.writer = .writing val n) :
    Inv { s with
      packed := s.writer_slot ||| kNewDataFlag
      writer := .exchanged s.packed
      published := s.published ++ [val] } shared r w true k := by
  have hwriter := h.writer
  rw [WriterOk, hw] at hwriter
  obtain ⟨hslot, -, hcopy⟩ := hwriter
  have hold : ∀ {j : ℕ} {v : Value n W}, s.published[j]? = some v →
      (s.published ++ [val])[j]? = some v := fun hj =>
    List.getElem?_append_left (List.getElem?_eq_some_iff.mp hj).1 ▸ hj
  refine ⟨h.slots.exchange_writer, ?_, ?_, hold h.taken, fun _ => ?_,
    fun hf => absurd hf (by simp), fun t => (h.readers t).flag, h.reader_slot, h.alone,
    fun l hl => ⟨hold (h.loads l hl).1, (h.loads l hl).2⟩, h.monotone⟩
  · simp only [pack, if_true]
    rw [hslot]
  · simp only [WriterOk]
    rw [h.packed, h.slots.mask_pack]
  · simp only [List.length_append, List.length_singleton, Nat.add_sub_cancel]
    rw [List.getElem?_concat_length, hcopy.eq]

/-- **A reader's exchange**: the readers' slot becomes the shared one, and the shared one, which
holds the last value, the readers'. -/
theorem Inv.loadExchange (h : Inv s w r shared fresh k) {slot : UInt32}
    (ht : s.reader t = .offering slot) :
    Inv { s.move t (.swapped s.packed (s.published.length - 1)) with packed := slot }
      w shared r false (s.published.length - 1) := by
  have hok := h.readers t
  rw [ht] at hok
  obtain ⟨hfresh, rfl⟩ := hok
  have hout : ∀ u, u ≠ t → (s.reader u).inside = false := fun u hu =>
    h.alone t u (by rw [ht]; rfl) hu
  have hlt : k < s.published.length := (List.getElem?_eq_some_iff.mp h.taken).1
  have hreader : ∀ u, u ≠ t → ({ s.move t (.swapped s.packed (s.published.length - 1)) with
      packed := slot } : State n W T).reader u = s.reader u := fun u hu => move_reader_of_ne hu _
  refine ⟨h.slots.exchange_reader, rfl, h.writer, h.last hfresh, fun hf => absurd hf (by simp),
    fun _ => rfl, fun u => ?_, fun hns => ?_, fun u v hu hv => ?_, fun l hl => ?_, h.monotone⟩
  · by_cases hu : u = t
    · subst hu
      have hself : ({ s.move u (.swapped s.packed (s.published.length - 1)) with
          packed := slot } : State n W T).reader u = .swapped s.packed (s.published.length - 1) :=
        move_reader_self ..
      rw [hself]
      exact ⟨by rw [h.packed, h.slots.mask_pack], rfl⟩
    · rw [hreader u hu]
      exact ReaderOk.of_outside (hout u hu)
  · exact absurd (move_reader_self s t _) (hns t _ _)
  · by_cases hvt : v = t
    · subst hvt
      have := inside_of_swapping hu
      rw [hreader u hv.symm, hout u hv.symm] at this
      cases this
    · rw [hreader v hvt]
      exact hout v hvt
  · exact ⟨(h.loads l hl).1, (h.loads l hl).2.trans (Nat.le_sub_one_of_lt hlt)⟩

/-- `reader_slot_` is set to the readers' slot. -/
theorem Inv.loadUpdate (h : Inv s w r shared fresh k) {old : UInt32} {since : ℕ}
    (ht : s.reader t = .swapped old since) :
    Inv { s.move t (.chosen since) with reader_slot := old &&& kSlotMask } w r shared fresh k := by
  have hok := h.readers t
  rw [ht] at hok
  obtain ⟨hslot, rfl⟩ := hok
  have hout : ∀ u, u ≠ t → (s.reader u).inside = false := fun u hu =>
    h.alone t u (by rw [ht]; rfl) hu
  have hreader : ∀ u, u ≠ t → ({ s.move t (.chosen since) with
      reader_slot := old &&& kSlotMask } : State n W T).reader u = s.reader u :=
    fun u hu => move_reader_of_ne hu _
  have hself : ({ s.move t (.chosen since) with
      reader_slot := old &&& kSlotMask } : State n W T).reader t = .chosen since :=
    move_reader_self ..
  refine ⟨h.slots, h.packed, h.writer, h.taken, h.last, h.stale, fun u => ?_, fun _ => hslot,
    fun u v hu hv => ?_, h.loads, h.monotone⟩
  · by_cases hu : u = t
    · subst hu
      rw [hself]
      rfl
    · rw [hreader u hu]
      exact h.readers u
  · by_cases hut : u = t
    · subst hut
      rw [hself] at hu
      cases hu
    · have := inside_of_swapping hu
      rw [hreader u hut, hout u hut] at this
      cases this

/-- A load returns value number `k`. -/
theorem Inv.loadReturn (h : Inv s w r shared fresh k) {slot : UInt32} {out : Value n W} {since : ℕ}
    (ht : s.reader t = .reading slot n out since) :
    Inv { s.move t (.returned out since) with loads := s.loads ++ [⟨t, since, out⟩] }
      w r shared fresh k := by
  have hok := h.readers t
  rw [ht] at hok
  obtain ⟨rfl, rfl, -, hcopy⟩ := hok
  have hm := h.move (.returned out since) trivial (fun old since' he => by rw [ht] at he; cases he)
    (fun hp => by cases hp) (fun hp => by cases hp)
  refine ⟨hm.slots, hm.packed, hm.writer, hm.taken, hm.last, hm.stale, hm.readers, hm.reader_slot,
    hm.alone, fun l hl => ?_, ?_⟩
  · rcases List.mem_append.mp hl with hl | hl
    · exact h.loads l hl
    · obtain rfl := List.mem_singleton.mp hl
      rw [hcopy.eq]
      exact ⟨h.taken, le_rfl⟩
  · simp only [List.map_append, List.map_singleton]
    refine List.pairwise_append.mpr ⟨h.monotone, List.pairwise_singleton .., fun a ha b hb => ?_⟩
    obtain ⟨l, hl, rfl⟩ := List.mem_map.mp ha
    rw [List.mem_singleton.mp hb]
    exact (h.loads l hl).2

end

omit [DecidableEq T] in
theorem inv_init (v : Value n W) : Inv (init v : State n W T) 2 0 1 false 0 where
  slots := by unfold Owned; decide
  packed := rfl
  writer := rfl
  taken := rfl
  last h := absurd h Bool.false_ne_true
  stale _ := rfl
  readers _ := trivial
  reader_slot _ := rfl
  alone _ _ h := absurd h Bool.false_ne_true
  loads _ h := absurd h List.not_mem_nil
  monotone := List.Pairwise.nil

/-- **One step** passes the slots on and keeps their owners apart. -/
theorem inv_step (h : ∃ w r shared fresh k, Inv s w r shared fresh k) (hc : Apart s a)
    (hs : Step s a s') : ∃ w r shared fresh k, Inv s' w r shared fresh k := by
  obtain ⟨w, r, shared, fresh, k, h⟩ := h
  cases hs with
  | storeEnter val hw =>
    have hwriter := h.writer
    rw [WriterOk, hw] at hwriter
    exact ⟨w, r, shared, fresh, k, { h with
      writer := ⟨hwriter, Nat.zero_le n, Copied.zero _ _⟩ }⟩
  | storeWord val i hw hi => exact ⟨_, _, _, _, _, h.storeWord hw hi⟩
  | storeExchange val hw => exact ⟨_, _, _, _, _, h.storeExchange hw⟩
  | storeUpdate old hw =>
    have hwriter := h.writer
    rw [WriterOk, hw] at hwriter
    exact ⟨w, r, shared, fresh, k, { h with writer := hwriter }⟩
  | loadEnter t ht =>
    exact ⟨w, r, shared, fresh, k, h.move .entered trivial
      (fun old since he => by rw [he] at ht; cases ht) (fun hp => by cases hp)
      (fun hp => by cases hp)⟩
  | loadFound t ht hp =>
    rw [Apart, if_pos hp] at hc
    rw [h.packed, h.slots.flag_pack] at hp
    exact ⟨w, r, shared, fresh, k, h.move .found hp (fun old since he => by rw [ht] at he; cases he)
      (fun _ => hc) fun _ u hu => by
        rw [← Bool.not_eq_true]
        exact fun hsw => Bool.false_ne_true ((hc u hu).symm.trans (inside_of_swapping hsw))⟩
  | loadStale t ht hp =>
    rw [Apart, if_neg (not_not.mpr hp)] at hc
    have hstale : fresh = false := by
      rw [← Bool.not_eq_true, ← h.slots.flag_pack fresh, ← h.packed, not_not]
      exact hp
    exact ⟨w, r, shared, fresh, k, h.move (.chosen _) (h.stale hstale).symm
      (fun old since he => by rw [ht] at he; cases he) (fun hsw => by cases hsw) fun _ => hc⟩
  | loadOffer t ht =>
    have hok := h.readers t
    rw [ht] at hok
    have hslot := h.reader_slot_eq (t := t) (by rw [ht]; rfl) (fun _ _ he => by rw [ht] at he; cases he)
    exact ⟨w, r, shared, fresh, k, h.move (.offering _) ⟨hok, hslot⟩
      (fun old since he => by rw [ht] at he; cases he)
      (fun _ u hu => h.alone t u (by rw [ht]; rfl) hu)
      (fun _ => h.not_swapping (by rw [ht]; rfl))⟩
  | loadExchange t slot ht => exact ⟨_, _, _, _, _, h.loadExchange ht⟩
  | loadUpdate t old since ht => exact ⟨_, _, _, _, _, h.loadUpdate ht⟩
  | loadIndex t out since ht =>
    have hok := h.readers t
    rw [ht] at hok
    have hslot := h.reader_slot_eq (t := t) (by rw [ht]; rfl) (fun _ _ he => by rw [ht] at he; cases he)
    exact ⟨w, r, shared, fresh, k, h.move (.reading ..) ⟨hslot, hok, Nat.zero_le n, Copied.zero _ _⟩
      (fun old since he => by rw [ht] at he; cases he) (fun hsw => by cases hsw)
      (fun _ => h.not_swapping (by rw [ht]; rfl))⟩
  | loadWord t slot i out since ht hi =>
    have hok := h.readers t
    rw [ht] at hok
    obtain ⟨rfl, hsince, -, hcopy⟩ := hok
    exact ⟨w, slot, shared, fresh, k, h.move (.reading ..) ⟨rfl, hsince, hi, hcopy.copyWord⟩
      (fun old since he => by rw [ht] at he; cases he) (fun hsw => by cases hsw)
      (fun _ => h.not_swapping (by rw [ht]; rfl))⟩
  | loadReturn t slot out since ht => exact ⟨_, _, _, _, _, h.loadReturn ht⟩

/-- **The slots have one owner each**, in every run in which a load that has found new data overlaps
no other. -/
theorem inv_of_reaches (v : Value n W) (h : Reaches (Fires next) Apart (init v) s) :
    ∃ w r shared fresh k, Inv s w r shared fresh k :=
  h.inv ⟨_, _, _, _, _, inv_init v⟩ fun _ _ _ hI hc hs => inv_step hI hc (step_of_next hs)

/-! ## One reader -/

/-- The writer's slot, be its update still to come. -/
def State.writerSlot (s : State n W T) : UInt32 :=
  match s.writer with
  | .exchanged old => old &&& kSlotMask
  | _ => s.writer_slot

/-- The reader's slot, be its update still to come. -/
def State.readerSlot (s : State n W Unit) : UInt32 :=
  match s.reader () with
  | .swapped old _ => old &&& kSlotMask
  | _ => s.reader_slot

/-- The latest complete value: each slot has one owner, the reader copies none that the writer
writes, and every completed load has returned the value that was last exchanged in when it chose its
slot, none older than a load before it. -/
structure Latest (s : State n W Unit) : Prop where
  slots : [s.writerSlot, s.readerSlot, s.packed &&& kSlotMask].Perm [0, 1, 2]
  untorn : ∀ slot i out since, s.reader () = .reading slot i out since →
    slot = s.readerSlot ∧ slot ≠ s.writerSlot
  value : ∀ l ∈ s.loads, s.published[l.since]? = some l.out
  monotone : (s.loads.map Loaded.since).Pairwise (· ≤ ·)

omit [DecidableEq T] in
theorem Inv.writerSlot {w r shared : UInt32} {fresh : Bool} {k : ℕ}
    (h : Inv s w r shared fresh k) : s.writerSlot = w := by
  have hwriter := h.writer
  unfold WriterOk at hwriter
  unfold State.writerSlot
  cases hw : s.writer with
  | writing val i =>
    rw [hw] at hwriter
    exact hwriter.1
  | idle | exchanged old =>
    rw [hw] at hwriter
    exact hwriter

theorem Inv.readerSlot {s : State n W Unit} {w r shared : UInt32} {fresh : Bool} {k : ℕ}
    (h : Inv s w r shared fresh k) : s.readerSlot = r := by
  unfold State.readerSlot
  split
  · rename_i old since hr
    have hok := h.readers ()
    rw [hr] at hok
    exact hok.1
  · rename_i hr
    exact h.reader_slot fun _ old since he => hr old since he

/-- With one reader there is no other load to overlap. -/
theorem apart_of_one (s : State n W Unit) (a : Act n W Unit) : Apart s a := by
  unfold Apart
  split
  · split
    · exact fun u hu => absurd (Subsingleton.elim ..) hu
    · exact fun u hu => absurd (Subsingleton.elim ..) hu
  · trivial

/-- **One writer and one reader**: for every interleaving of their steps, the reader copies no slot
that the writer writes, and every load returns the value that was last exchanged in when it chose
its slot, none older than that of the load before it. -/
theorem latest_value (v : Value n W) {s : State n W Unit}
    (h : Reaches (Fires next) (fun _ _ => True) (init v) s) : Latest s := by
  obtain ⟨w, r, shared, fresh, k, hI⟩ := inv_of_reaches v (h.mono fun s a _ => apart_of_one s a)
  refine ⟨?_, fun slot i out since hr => ?_, fun l hl => (hI.loads l hl).1, hI.monotone⟩
  · rw [hI.writerSlot, hI.readerSlot, hI.packed, hI.slots.mask_pack]
    exact hI.slots
  · have hok := hI.readers ()
    rw [hr] at hok
    rw [hI.readerSlot, hI.writerSlot, hok.1]
    exact ⟨rfl, hI.slots.distinct.1⟩

/-- Two words, as in a pair of doubles. -/
def pair (x y : ℕ) : Value 2 ℕ := fun i => if i.val = 0 then x else y

/-- A load that chose its slot before the writer's exchange still returns the initial value; the next
one returns the value stored meanwhile. -/
theorem latest_value_pair : ∃ s : State 2 ℕ Unit,
    s.loads.map Loaded.out = [pair 0 0, pair 1 2] ∧ Latest s := by
  have hplay : (play next (fun _ _ => True) (init (pair 0 0))
      [.storeEnter (pair 1 2), .storeWord, .loadEnter (), .loadPeek (), .loadIndex () (pair 9 9),
        .storeWord, .loadWord (), .storeExchange, .loadWord (), .storeUpdate, .loadReturn (),
        .loadEnter (), .loadPeek (), .loadOffer (), .loadExchange (), .loadUpdate (),
        .loadIndex () (pair 9 9), .loadWord (), .loadWord (), .loadReturn ()]).any
      (fun s => decide (s.loads.map Loaded.out = [pair 0 0, pair 1 2])) = true := by
    decide
  obtain ⟨s, hs, hp⟩ := (Option.any_eq_true _ _).mp hplay
  exact ⟨s, of_decide_eq_true hp, latest_value (pair 0 0) (reaches_of_play hs)⟩

end Meridian.AtomicDoubleBuffer
