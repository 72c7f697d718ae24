import Meridian.Cpp.Seqlock
import Meridian.Cpp.SpscQueue

/-!
# `SpscQueue<T, N>`: one producer against one consumer

Model of `push` and `pop` of `exchange/cpp/include/spsc_queue.h` (80-114) step by step: every access
to `write_pos_`, to `read_pos_` and to a word of a slot is one step, and the steps of the two threads
interleave freely (sequential consistency). An item is `n` words; both sides copy it one word at a
time.

Results:
* `spsc_fifo`: in every state reached the popped items are a prefix of the pushed ones and at most
  `N - 1` items are queued; a `push` fails only on a read of `read_pos_` with `N - 1` items queued, a
  `pop` only on a read of `write_pos_` with none queued;
* `Inv.queue`: the slots from the one position to the other hold the queued items.
-/

namespace Meridian.SpscThreads

open Meridian.Run
open Seqlock (copyWord Copied)

variable {n N : ℕ} {W : Type}

/-- An item, word by word. -/
abbrev Item (n : ℕ) (W : Type) := Fin n → W

/-- Where `push` stands (`spsc_queue.h:80-95`). -/
inductive PushPc (n N : ℕ) (W : Type) where
  | idle
  /-- before the read of `write_pos_` -/
  | entered (item : Item n W)
  /-- before the read of `read_pos_` -/
  | loaded (item : Item n W) (w : Fin N)
  /-- the words before `i` are written; at `n`, before the store of `write_pos_` -/
  | writing (item : Item n W) (w : Fin N) (i : ℕ)
  | returned (ok : Bool)

/-- Where `pop` stands (`spsc_queue.h:100-114`). -/
inductive PopPc (n N : ℕ) (W : Type) where
  | idle
  /-- before the read of `read_pos_` -/
  | entered
  /-- before the read of `write_pos_` -/
  | loaded (r : Fin N)
  /-- the words before `i` are in `out`; at `n`, before the store of `read_pos_` -/
  | reading (r : Fin N) (i : ℕ) (out : Item n W)
  | returned (ok : Bool)

/-- The queue, and where its two threads stand. History: the items of the pushes and of the pops
that have succeeded, in their order. -/
structure State (n N : ℕ) (W : Type) where
  queue : SpscQueue (Item n W) N
  producer : PushPc n N W
  consumer : PopPc n N W
  pushed : List (Item n W)
  popped : List (Item n W)

/-- A new queue. -/
def init (hN : RingSize N) (default : Item n W) : State n N W :=
  { queue := .empty hN default, producer := .idle, consumer := .idle, pushed := [], popped := [] }

/-- The steps of the two threads. The argument of `popReadWrite` is what the caller's `out` holds. -/
inductive Act (n : ℕ) (W : Type) where
  | pushEnter (item : Item n W)
  | pushReadWrite
  | pushReadRead
  | pushWord
  | pushStore
  | popEnter
  | popReadRead
  | popReadWrite (out : Item n W)
  | popWord
  | popStore

/-- `buf_[w]` once word `i` of `item` is written. -/
def writeWord (q : SpscQueue (Item n W) N) (w : Fin N) (item : Item n W) (i : ℕ) :
    SpscQueue (Item n W) N :=
  { q with buf := fun p => if p = w then copyWord (q.buf w) item i else q.buf p }

/-- One step, where the thread it belongs to is at that place. -/
def next (s : State n N W) : Act n W → Option (State n N W)
  | .pushEnter item =>
    match s.producer with
    | .idle | .returned _ => some { s with producer := .entered item }
    | _ => none
  | .pushReadWrite =>
    match s.producer with
    | .entered item => some { s with producer := .loaded item s.queue.write_pos }
    | _ => none
  | .pushReadRead =>
    match s.producer with
    | .loaded item w =>
      if SpscQueue.next w = s.queue.read_pos then some { s with producer := .returned false }
      else some { s with producer := .writing item w 0 }
    | _ => none
  | .pushWord =>
    match s.producer with
    | .writing item w i =>
      if i < n then
        some { s with queue := writeWord s.queue w item i, producer := .writing item w (i + 1) }
      else none
    | _ => none
  | .pushStore =>
    match s.producer with
    | .writing item w i =>
      if i = n then
        some { s with
          queue := { s.queue with write_pos := SpscQueue.next w }
          producer := .returned true
          pushed := s.pushed ++ [item] }
      else none
    | _ => none
  | .popEnter =>
    match s.consumer with
    | .idle | .returned _ => some { s with consumer := .entered }
    | _ => none
  | .popReadRead =>
    match s.consumer with
    | .entered => some { s with consumer := .loaded s.queue.read_pos }
    | _ => none
  | .popReadWrite out =>
    match s.consumer with
    | .loaded r =>
      if r = s.queue.write_pos then some { s with consumer := .returned false }
      else some { s with consumer := .reading r 0 out }
    | _ => none
  | .popWord =>
    match s.consumer with
    | .reading r i out =>
      if i < n then
        some { s with consumer := .reading r (i + 1) (copyWord out (s.queue.buf r) i) }
      else none
    | _ => none
  | .popStore =>
    match s.consumer with
    | .reading r i out =>
      if i = n then
        some { s with
          queue := { s.queue with read_pos := SpscQueue.next r }
          consumer := .returned true
          popped := s.popped ++ [out] }
      else none
    | _ => none

/-- The queued items, oldest first: pushed and not yet popped. -/
def State.items (s : State n N W) : List (Item n W) := s.pushed.drop s.popped.length

/-- How many items are queued. -/
def State.queued (s : State n N W) : ℕ := s.pushed.length - s.popped.length

/-! ## What a step can be -/

/-- The steps, each with what it needs. -/
inductive Step (s : State n N W) : Act n W → State n N W → Prop
  | pushEnter (item : Item n W) : Step s (.pushEnter item) { s with producer := .entered item }
  | pushReadWrite (item : Item n W) (hp : s.producer = .entered item) :
    Step s .pushReadWrite { s with producer := .loaded item s.queue.write_pos }
  | pushFull (item : Item n W) (w : Fin N) (hp : s.producer = .loaded item w)
      (hw : SpscQueue.next w = s.queue.read_pos) :
    Step s .pushReadRead { s with producer := .returned false }
  | pushRoom (item : Item n W) (w : Fin N) (hp : s.producer = .loaded item w)
      (hw : SpscQueue.next w ≠ s.queue.read_pos) :
    Step s .pushReadRead { s with producer := .writing item w 0 }
  | pushWord (item : Item n W) (w : Fin N) (i : ℕ) (hp : s.producer = .writing item w i)
      (hi : i < n) :
    Step s .pushWord
      { s with queue := writeWord s.queue w item i, producer := .writing item w (i + 1) }
  | pushStore (item : Item n W) (w : Fin N) (hp : s.producer = .writing item w n) :
    Step s .pushStore { s with
      queue := { s.queue with write_pos := SpscQueue.next w }
      producer := .returned true
      pushed := s.pushed ++ [item] }
  | popEnter : Step s .popEnter { s with consumer := .entered }
  | popReadRead (hc : s.consumer = .entered) :
    Step s .popReadRead { s with consumer := .loaded s.queue.read_pos }
  | popEmpty (out : Item n W) (r : Fin N) (hc : s.consumer = .loaded r)
      (hr : r = s.queue.write_pos) :
    Step s (.popReadWrite out) { s with consumer := .returned false }
  | popFound (out : Item n W) (r : Fin N) (hc : s.consumer = .loaded r)
      (hr : r ≠ s.queue.write_pos) :
    Step s (.popReadWrite out) { s with consumer := .reading r 0 out }
  | popWord (r : Fin N) (i : ℕ) (out : Item n W) (hc : s.consumer = .reading r i out)
      (hi : i < n) :
    Step s .popWord { s with consumer := .reading r (i + 1) (copyWord out (s.queue.buf r) i) }
  | popStore (r : Fin N) (out : Item n W) (hc : s.consumer = .reading r n out) :
    Step s .popStore { s with
      queue := { s.queue with read_pos := SpscQueue.next r }
      consumer := .returned true
      popped := s.popped ++ [out] }

variable {s s' : State n N W} {a : Act n W}

theorem step_of_next (h : next s a = some s') : Step s a s' := by
  cases a with
  | pushEnter item =>
    simp only [next] at h
    split at h
    · exact Option.some.inj h ▸ .pushEnter item
    · exact Option.some.inj h ▸ .pushEnter item
    · cases h
  | pushReadWrite =>
    simp only [next] at h
    split at h
    · rename_i item hp
      exact Option.some.inj h ▸ .pushReadWrite item hp
    · cases h
  | pushReadRead =>
    simp only [next] at h
    split at h
    · rename_i item w hp
      split at h
      · rename_i hw
        exact Option.some.inj h ▸ .pushFull item w hp hw
      · rename_i hw
        exact Option.some.inj h ▸ .pushRoom item w hp hw
    · cases h
  | pushWord =>
    simp only [next] at h
    split at h
    · rename_i item w i hp
      obtain ⟨hi, ⟨⟩⟩ := Option.ite_none_right_eq_some.mp h
      exact .pushWord item w i hp hi
    · cases h
  | pushStore =>
    simp only [next] at h
    split at h
    · rename_i item w i hp
      obtain ⟨rfl, ⟨⟩⟩ := Option.ite_none_right_eq_some.mp h
      exact .pushStore item w hp
    · cases h
  | popEnter =>
    simp only [next] at h
    split at h
    · exact Option.some.inj h ▸ .popEnter
    · exact Option.some.inj h ▸ .popEnter
    · cases h
  | popReadRead =>
    simp only [next] at h
    split at h
    · rename_i hc
      exact Option.some.inj h ▸ .popReadRead hc
    · cases h
  | popReadWrite out =>
    simp only [next] at h
    split at h
    · rename_i r hc
      split at h
      · rename_i hr
        exact Option.some.inj h ▸ .popEmpty out r hc hr
      · rename_i hr
        exact Option.some.inj h ▸ .popFound out r hc hr
    · cases h
  | popWord =>
    simp only [next] at h
    split at h
    · rename_i r i out hc
      obtain ⟨hi, ⟨⟩⟩ := Option.ite_none_right_eq_some.mp h
      exact .popWord r i out hc hi
    · cases h
  | popStore =>
    simp only [next] at h
    split at h
    · rename_i r i out hc
      obtain ⟨rfl, ⟨⟩⟩ := Option.ite_none_right_eq_some.mp h
      exact .popStore r out hc
    · cases h

/-! ## The invariant -/

/-- What ties `push` to the queue: its `w` is the write position, and once it has found room there
is room until its store. -/
def ProducerOk (q : SpscQueue (Item n W) N) : PushPc n N W → Prop
  | .loaded _ w => w = q.write_pos
  | .writing item w i => w = q.write_pos ∧ q.full = false ∧ i ≤ n ∧ Copied (q.buf w) item i
  | _ => True

/-- What ties `pop` to the queue: its `r` is the read position, and once it has found an item that
item stays in its slot. -/
def ConsumerOk (q : SpscQueue (Item n W) N) : PopPc n N W → Prop
  | .loaded r => r = q.read_pos
  | .reading r i out => r = q.read_pos ∧ r ≠ q.write_pos ∧ i ≤ n ∧ Copied out (q.buf r) i
  | _ => True

/-- What holds in every state reached: the items from the read to the write position are those
pushed and not yet popped. -/
structure Inv (s : State n N W) : Prop where
  queue : s.pushed = s.popped ++ s.queue.contents
  producer : ProducerOk s.queue s.producer
  consumer : ConsumerOk s.queue s.consumer

/-- A word written at the write position is seen by nobody. -/
theorem contents_writeWord (q : SpscQueue (Item n W) N) (item : Item n W) (i : ℕ) :
    (writeWord q q.write_pos item i).contents = q.contents :=
  q.contents_write _ fun _ hp => if_neg hp

theorem buf_writeWord_of_ne {q : SpscQueue (Item n W) N} {w r : Fin N} (h : r ≠ w)
    (item : Item n W) (i : ℕ) : (writeWord q w item i).buf r = q.buf r := if_neg h

theorem buf_writeWord_self (q : SpscQueue (Item n W) N) (w : Fin N) (item : Item n W) (i : ℕ) :
    (writeWord q w item i).buf w = copyWord (q.buf w) item i := if_pos rfl

/-- An item that is popped makes room. -/
theorem not_full_of_pop (hN : RingSize N) {q q' : SpscQueue (Item n W) N} {item : Item n W}
    (h : q.pop = some (item, q')) : q'.full = false := by
  have hlen := congrArg List.length (SpscQueue.contents_pop hN h)
  rw [List.length_cons, SpscQueue.length_contents, SpscQueue.length_contents] at hlen
  have hlt := q.size_lt
  rw [Bool.eq_false_iff]
  intro hf
  have := (SpscQueue.full_iff hN q').mp hf
  omega

/-- A pop that has found an item takes the oldest one. -/
theorem pop_of_ne {q : SpscQueue (Item n W) N} (h : q.read_pos ≠ q.write_pos) :
    q.pop = some (q.buf q.read_pos, { q with read_pos := SpscQueue.next q.read_pos }) := by
  rw [SpscQueue.pop, if_neg h]

theorem inv_init (hN : RingSize N) (default : Item n W) : Inv (init hN default) :=
  ⟨by simp [init], trivial, trivial⟩

/-- The producer's steps keep what the consumer relies on. -/
theorem ConsumerOk.writeWord {q : SpscQueue (Item n W) N} {pc : PopPc n N W} (h : ConsumerOk q pc)
    (item : Item n W) (i : ℕ) : ConsumerOk (writeWord q q.write_pos item i) pc := by
  cases pc with
  | reading r j out =>
    obtain ⟨hr, hne, hj, hout⟩ := h
    refine ⟨hr, hne, hj, ?_⟩
    rwa [buf_writeWord_of_ne hne]
  | idle | entered | loaded r | returned ok => exact h

theorem ConsumerOk.grow {q : SpscQueue (Item n W) N} {pc : PopPc n N W} (h : ConsumerOk q pc)
    (hf : q.full = false) : ConsumerOk { q with write_pos := SpscQueue.next q.write_pos } pc := by
  cases pc with
  | reading r j out =>
    obtain ⟨rfl, -, hj, hout⟩ := h
    exact ⟨rfl, fun he => of_decide_eq_false hf he.symm, hj, hout⟩
  | idle | entered | loaded r | returned ok => exact h

/-- The consumer's steps keep what the producer relies on. -/
theorem ProducerOk.pop {q q' : SpscQueue (Item n W) N} {item : Item n W} {pc : PushPc n N W}
    (hN : RingSize N) (h : ProducerOk q pc) (hp : q.pop = some (item, q'))
    (hbuf : q'.buf = q.buf) (hw : q'.write_pos = q.write_pos) : ProducerOk q' pc := by
  cases pc with
  | writing item w i =>
    obtain ⟨hwp, -, hi, hcopy⟩ := h
    exact ⟨hwp.trans hw.symm, not_full_of_pop hN hp, hi, hbuf ▸ hcopy⟩
  | loaded item w => exact Eq.trans h hw.symm
  | idle | entered item | returned ok => exact h

theorem inv_step (hN : RingSize N) (hI : Inv s) (hs : Step s a s') : Inv s' := by
  obtain ⟨hqueue, hprod, hcons⟩ := hI
  cases hs with
  | pushEnter item => exact ⟨hqueue, trivial, hcons⟩
  | pushReadWrite item hp => exact ⟨hqueue, rfl, hcons⟩
  | pushFull item w hp hw => exact ⟨hqueue, trivial, hcons⟩
  | pushRoom item w hp hw =>
    rw [hp] at hprod
    obtain rfl : w = s.queue.write_pos := hprod
    exact ⟨hqueue, ⟨rfl, decide_eq_false hw, Nat.zero_le n, Copied.zero _ _⟩, hcons⟩
  | pushWord item w i hp hi =>
    rw [hp] at hprod
    obtain ⟨rfl, hfull, -, hcopy⟩ := hprod
    refine ⟨?_, ⟨rfl, hfull, hi, ?_⟩, hcons.writeWord item i⟩
    · rw [hqueue, contents_writeWord]
    · rw [buf_writeWord_self]
      exact hcopy.copyWord
  | pushStore item w hp =>
    rw [hp] at hprod
    obtain ⟨rfl, hfull, -, hcopy⟩ := hprod
    refine ⟨?_, trivial, hcons.grow hfull⟩
    rw [SpscQueue.contents_grow hN hfull, hcopy.eq, hqueue, List.append_assoc]
  | popEnter => exact ⟨hqueue, hprod, trivial⟩
  | popReadRead hc => exact ⟨hqueue, hprod, rfl⟩
  | popEmpty out r hc hr => exact ⟨hqueue, hprod, trivial⟩
  | popFound out r hc hr =>
    rw [hc] at hcons
    obtain rfl : r = s.queue.read_pos := hcons
    exact ⟨hqueue, hprod, ⟨rfl, hr, Nat.zero_le n, Copied.zero _ _⟩⟩
  | popWord r i out hc hi =>
    rw [hc] at hcons
    obtain ⟨rfl, hne, -, hcopy⟩ := hcons
    exact ⟨hqueue, hprod, ⟨rfl, hne, hi, hcopy.copyWord⟩⟩
  | popStore r out hc =>
    rw [hc] at hcons
    obtain ⟨rfl, hne, -, hcopy⟩ := hcons
    have hpop := pop_of_ne hne
    refine ⟨?_, hprod.pop hN hpop rfl rfl, trivial⟩
    rw [hqueue, SpscQueue.contents_pop hN hpop, hcopy.eq, List.append_assoc, List.singleton_append]

theorem inv_of_reaches (hN : RingSize N) (default : Item n W)
    (h : Reaches (Fires next) (fun _ _ => True) (init hN default) s) : Inv s :=
  h.inv (inv_init hN default) fun _ _ _ hI _ hs => inv_step hN hI (step_of_next hs)

/-! ## The result -/

theorem Inv.items (h : Inv s) : s.items = s.queue.contents := by
  rw [State.items, h.queue, List.drop_left]

theorem Inv.queued (h : Inv s) : s.queued = s.queue.size := by
  rw [State.queued, h.queue, List.length_append, Nat.add_sub_cancel_left,
    SpscQueue.length_contents]

/-- What one step does to the queued items: the store of `write_pos_` appends one where there is
room and lets `push` return `true`, the store of `read_pos_` takes the first one and lets `pop`
return `true`, and no other step changes them. -/
inductive Linear (s s' : State n N W) : Act n W → Prop
  | push (item : Item n W) (hroom : s.queued < N - 1) (hitems : s'.items = s.items ++ [item])
    (hret : s'.producer = .returned true) : Linear s s' .pushStore
  | pop (item : Item n W) (hitems : s.items = item :: s'.items)
    (hret : s'.consumer = .returned true) : Linear s s' .popStore
  | same {a : Act n W} (hitems : s'.items = s.items) : Linear s s' a

/-- A bounded FIFO: what was popped was pushed, in this order and each item once and whole; a call
that returns `false` has just read the other side's position on a full or on an empty queue. -/
structure Fifo (s : State n N W) : Prop where
  in_order : s.popped <+: s.pushed
  bounded : s.queued ≤ N - 1
  linear : ∀ a s', next s a = some s' → Linear s s' a
  full : ∀ a s', next s a = some s' → s.producer ≠ .returned false →
    s'.producer = .returned false → a = .pushReadRead ∧ s.queued = N - 1
  empty : ∀ a s', next s a = some s' → s.consumer ≠ .returned false →
    s'.consumer = .returned false → (∃ out, a = .popReadWrite out) ∧ s.queued = 0

theorem Inv.linear (hN : RingSize N) (h : Inv s) (hs : Step s a s') : Linear s s' a := by
  have h' := inv_step hN h hs
  cases hs with
  | pushStore item w hp =>
    have hprod := h.producer
    rw [hp] at hprod
    obtain ⟨rfl, hfull, -, hcopy⟩ := hprod
    have hsize := s.queue.size_lt
    have hne : s.queue.size ≠ N - 1 := fun he =>
      Bool.eq_false_iff.mp hfull ((SpscQueue.full_iff hN s.queue).mpr he)
    refine .push item ?_ ?_ rfl
    · rw [h.queued]
      omega
    · rw [h.items, h'.items, SpscQueue.contents_grow hN hfull, hcopy.eq]
  | popStore r out hc =>
    have hcons := h.consumer
    rw [hc] at hcons
    obtain ⟨rfl, hne, -, hcopy⟩ := hcons
    refine .pop out ?_ rfl
    rw [h.items, h'.items, SpscQueue.contents_pop hN (pop_of_ne hne), hcopy.eq]
  | _ => exact .same rfl

theorem Inv.full (hN : RingSize N) (h : Inv s) {item : Item n W} {w : Fin N}
    (hp : s.producer = .loaded item w) (hw : SpscQueue.next w = s.queue.read_pos) :
    s.queued = N - 1 := by
  have hprod := h.producer
  rw [hp] at hprod
  obtain rfl : w = s.queue.write_pos := hprod
  rw [h.queued]
  exact (SpscQueue.full_iff hN s.queue).mp (decide_eq_true hw)

theorem Inv.empty (h : Inv s) {r : Fin N} (hc : s.consumer = .loaded r)
    (hr : r = s.queue.write_pos) : s.queued = 0 := by
  have hcons := h.consumer
  rw [hc] at hcons
  obtain rfl : r = s.queue.read_pos := hcons
  have hnone : s.queue.pop = none := if_pos hr
  rw [h.queued, ← SpscQueue.length_contents, SpscQueue.pop_eq_none.mp hnone, List.length_nil]

/-- **One producer and one consumer share a bounded FIFO**, for every capacity, every size of an
item and every interleaving of their steps: what was popped is a prefix of what was pushed, in
order, no item is torn, and no more than the capacity is ever in between. -/
theorem spsc_fifo (hN : RingSize N) (default : Item n W) {s : State n N W}
    (h : Reaches (Fires next) (fun _ _ => True) (init hN default) s) : Fifo s := by
  have hI := inv_of_reaches hN default h
  refine ⟨⟨_, hI.queue.symm⟩, ?_, fun a s' hs => hI.linear hN (step_of_next hs),
    fun a s' hs hne hret => ?_, fun a s' hs hne hret => ?_⟩
  · rw [hI.queued]
    exact Nat.le_sub_one_of_lt s.queue.size_lt
  · cases step_of_next hs with
    | pushFull item w hp hw => exact ⟨rfl, hI.full hN hp hw⟩
    | _ => first | exact absurd hret hne | cases hret
  · cases step_of_next hs with
    | popEmpty out r hc hr => exact ⟨⟨out, rfl⟩, hI.empty hc hr⟩
    | _ => first | exact absurd hret hne | cases hret

/-- An item of one word. -/
def word (x : ℕ) : Item 1 ℕ := fun _ => x

theorem ringSize_two : RingSize 2 := ⟨rfl, le_rfl⟩

/-- A queue of two slots: a push of 7 overtaken by a pop that is still copying, and a second push
refused in between. -/
theorem spsc_fifo_two : ∃ s : State 1 2 ℕ, s.pushed = [word 7] ∧ s.popped = [word 7] ∧ Fifo s := by
  have hplay : (play next (fun _ _ => True) (init ringSize_two (word 0))
      [.pushEnter (word 7), .pushReadWrite, .popEnter, .pushReadRead, .popReadRead, .pushWord,
        .pushStore, .popReadWrite (word 0), .pushEnter (word 8), .popWord, .pushReadWrite,
        .pushReadRead, .popStore]).any
      (fun s => decide (s.pushed = [word 7] ∧ s.popped = [word 7])) = true := by
    decide
  obtain ⟨s, hs, hp⟩ := (Option.any_eq_true _ _).mp hplay
  obtain ⟨hpush, hpop⟩ := of_decide_eq_true hp
  exact ⟨s, hpush, hpop, spsc_fifo ringSize_two (word 0) (reaches_of_play hs)⟩

end Meridian.SpscThreads
