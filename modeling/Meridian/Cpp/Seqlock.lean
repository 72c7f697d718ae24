import Mathlib.Algebra.Group.Nat.Defs
import Mathlib.Data.Fintype.Basic
import Meridian.Lib.Run

/-!
# `SeqlockBuffer<T>`: the stale `s2` of `load`

Model of `exchange/cpp/include/seqlock.h`, one writer against one reader. A `T` is `n` words, and
both sides copy it one word at a time; every access to `seq_` and to a word of `data_` is one step,
and the steps of the two threads interleave freely (sequential consistency).

* `store` (`seqlock.h:61-82`): `storeBegin` (the first `fetch_add`), `storeWord` for each word,
  `storeEnd` (the second `fetch_add`).
* `load` (`seqlock.h:87-113`): `loadSeq1`, `loadWord`, `loadSeq2`, `loadTest`. An odd `s1` takes
  the `continue` of line 98, which jumps to the loop test `s1 != s2` with whatever `s2` holds: the
  second read of the previous round or, in the first round, no value at all (`loadBegin` leaves
  the three locals arbitrary).

Results:
* `load_returns_torn`: with an odd `s1` equal to the `s2` of the round before, the test ends the
  loop and `load` returns a copy that mixes two values.
* `load_not_torn`: in every run where no odd read of `seq_` meets an equal `s2`, whatever `load`
  returns is the initial value or the argument of one `store`.
-/

namespace Meridian.Seqlock

open Meridian.Run

variable {n : ℕ} {W : Type}

/-- Where `load` stands. -/
inductive Pc where
  | idle
  | readSeq1
  | copy (i : ℕ)
  | test
  | returned
  deriving DecidableEq

/-- The reader: its place in `load` and the three locals. `copy n` is the second read of `seq_`. -/
structure Reader (n : ℕ) (W : Type) where
  pc : Pc
  s1 : UInt32
  s2 : UInt32
  out : Fin n → W

/-- The buffer, the writer (the argument of the `store` under way and the next word to write) and
the reader. `stored` and `begun` are history: the initial value with every argument of `store`,
and the number of `store` calls begun since the last `load` was entered. -/
structure State (n : ℕ) (W : Type) where
  seq : UInt32
  data : Fin n → W
  writer : Option ((Fin n → W) × ℕ)
  reader : Reader n W
  stored : List (Fin n → W)
  begun : ℕ

/-- The steps of the two threads. -/
inductive Act (n : ℕ) (W : Type) where
  | storeBegin (val : Fin n → W)
  | storeWord
  | storeEnd
  | loadBegin (s1 s2 : UInt32) (out : Fin n → W)
  | loadSeq1
  | loadWord
  | loadSeq2
  | loadTest

/-- `SeqlockBuffer(init)`, and a reader that has not called `load` yet. -/
def init (v : Fin n → W) : State n W :=
  { seq := 0, data := v, writer := none, reader := ⟨.idle, 0, 0, v⟩, stored := [v], begun := 0 }

/-- `s & 1u`. -/
def odd (s : UInt32) : Prop := s &&& 1 ≠ 0

instance (s : UInt32) : Decidable (odd s) := inferInstanceAs (Decidable (_ ≠ _))

/-- Word `i` of `dst` becomes word `i` of `src`. -/
def copyWord (dst src : Fin n → W) (i : ℕ) : Fin n → W :=
  fun j => if j = i then src j else dst j

/-- The words of `dst` before `i` are those of `src`. -/
def Copied (dst src : Fin n → W) (i : ℕ) : Prop := ∀ j : Fin n, j < i → dst j = src j

theorem Copied.zero (dst src : Fin n → W) : Copied dst src 0 :=
  fun _ hj => absurd hj (Nat.not_lt_zero _)

theorem Copied.copyWord {dst src : Fin n → W} {i : ℕ} (h : Copied dst src i) :
    Copied (copyWord dst src i) src (i + 1) := by
  intro j hj
  unfold Seqlock.copyWord
  split
  · rfl
  · exact h j (by omega)

theorem Copied.eq {dst src : Fin n → W} (h : Copied dst src n) : dst = src :=
  funext fun j => h j j.isLt

/-- One step, where the thread it belongs to is at that place. -/
def next (s : State n W) : Act n W → Option (State n W)
  | .storeBegin val =>
    match s.writer with
    | none => some { s with
        seq := s.seq + 1, writer := some (val, 0), stored := val :: s.stored, begun := s.begun + 1 }
    | some _ => none
  | .storeWord =>
    match s.writer with
    | some (val, i) =>
      if i < n then some { s with data := copyWord s.data val i, writer := some (val, i + 1) }
      else none
    | none => none
  | .storeEnd =>
    match s.writer with
    | some (_, i) => if i = n then some { s with seq := s.seq + 1, writer := none } else none
    | none => none
  | .loadBegin s1 s2 out =>
    match s.reader.pc with
    | .idle | .returned => some { s with reader := ⟨.readSeq1, s1, s2, out⟩, begun := 0 }
    | _ => none
  | .loadSeq1 =>
    match s.reader.pc with
    | .readSeq1 =>
      -- an odd value takes `continue`: straight to the test, `s2` as it was
      let pc := if odd s.seq then .test else .copy 0
      some { s with reader := { s.reader with pc := pc, s1 := s.seq } }
    | _ => none
  | .loadWord =>
    match s.reader.pc with
    | .copy i =>
      if i < n then some { s with reader :=
        { s.reader with pc := .copy (i + 1), out := copyWord s.reader.out s.data i } }
      else none
    | _ => none
  | .loadSeq2 =>
    match s.reader.pc with
    | .copy i =>
      if i = n then some { s with reader := { s.reader with pc := .test, s2 := s.seq } } else none
    | _ => none
  | .loadTest =>
    match s.reader.pc with
    | .test =>
      let pc := if s.reader.s1 ≠ s.reader.s2 then .readSeq1 else .returned
      some { s with reader := { s.reader with pc := pc } }
    | _ => none

/-- A `load` runs. -/
def Reader.Loading (r : Reader n W) : Prop := r.pc ≠ .idle ∧ r.pc ≠ .returned

instance (r : Reader n W) : Decidable r.Loading := inferInstanceAs (Decidable (_ ∧ _))

/-- Fewer than `2 ^ 31` calls of `store` begin while one `load` runs. -/
def FewStores (s : State n W) : Act n W → Prop
  | .storeBegin _ => s.reader.Loading → s.begun + 1 < 2 ^ 31
  | _ => True

/-- The read of `seq_` that takes `continue` does not meet an equal `s2`. -/
def NotStale (s : State n W) : Act n W → Prop
  | .loadSeq1 => odd s.seq → s.reader.s2 ≠ s.seq
  | _ => True

instance (s : State n W) (a : Act n W) : Decidable (FewStores s a) := by
  unfold FewStores; split <;> infer_instance

instance (s : State n W) (a : Act n W) : Decidable (NotStale s a) := by
  unfold NotStale; split <;> infer_instance

/-- `load` has returned nothing but the initial value or the argument of one `store`. -/
def NotTorn (s : State n W) : Prop := s.reader.pc = .returned → s.reader.out ∈ s.stored

/-! ## The counter

`seq_` counts the increments made so far, modulo `2 ^ 32`. -/

theorem ofNat_succ (c : ℕ) : UInt32.ofNat c + 1 = UInt32.ofNat (c + 1) := by
  apply UInt32.toNat_inj.mp
  simp

theorem odd_ofNat (c : ℕ) : odd (UInt32.ofNat c) ↔ c % 2 = 1 := by
  have h : (UInt32.ofNat c &&& 1).toNat = c % 2 := by
    rw [UInt32.toNat_and, UInt32.toNat_ofNat']
    have h1 : (1 : UInt32).toNat = 1 := rfl
    rw [h1, Nat.and_one_is_mod]
    omega
  unfold odd
  rw [Ne, ← UInt32.toNat_inj, h]
  have h0 : (0 : UInt32).toNat = 0 := rfl
  rw [h0]
  omega

/-- Fewer than `2 ^ 32` increments apart, two counts with one `seq_` are the same count. -/
theorem ofNat_inj_of_lt {c1 c b : ℕ} (hle : c1 ≤ c) (hc : c ≤ c1 + 2 * b) (hb : b < 2 ^ 31)
    (h : UInt32.ofNat c1 = UInt32.ofNat c) : c = c1 := by
  have h' : c1 % 2 ^ 32 = c % 2 ^ 32 := by
    have := congrArg UInt32.toNat h
    simpa using this
  omega

/-! ## The invariant -/

/-- What the writer keeps after `c` increments of `seq_`: between two calls of `store` the count is
even and `data_` is a stored value; inside a call it is odd and the words written so far are those
of the argument. -/
structure WriterOk (s : State n W) (c : ℕ) : Prop where
  seq : s.seq = UInt32.ofNat c
  rest : s.writer = none → c % 2 = 0 ∧ s.data ∈ s.stored
  busy : ∀ val i, s.writer = some (val, i) → c % 2 = 1 ∧ val ∈ s.stored ∧ i ≤ n ∧
    ∀ j : Fin n, j < i → s.data j = val j

/-- What ties the locals of `load` to the count: while it copies, `s1` is an earlier even count,
and as long as the count is still that one the words copied so far are those of `data_`; at the
test, equal `s1` and `s2` mean a stored value. -/
def ReaderOk (s : State n W) (c : ℕ) : Prop :=
  match s.reader.pc with
  | .copy i => ∃ c1, s.reader.s1 = UInt32.ofNat c1 ∧ c1 % 2 = 0 ∧ c1 ≤ c ∧ c ≤ c1 + 2 * s.begun ∧
      i ≤ n ∧ (c = c1 → ∀ j : Fin n, j < i → s.reader.out j = s.data j)
  | .test => s.reader.s1 = s.reader.s2 → s.reader.out ∈ s.stored
  | .returned => s.reader.out ∈ s.stored
  | _ => True

/-- The invariant of the runs in which no read meets a stale `s2`: with `c` the count of the
counter's increments, which `seq_` shows modulo `2 ^ 32`, writer and reader stand where it says. -/
structure Inv (s : State n W) : Prop where
  few : s.reader.Loading → s.begun < 2 ^ 31
  count : ∃ c, WriterOk s c ∧ ReaderOk s c

theorem inv_init (v : Fin n → W) : Inv (init v) where
  few h := absurd rfl h.1
  count := ⟨0, ⟨rfl, fun _ => ⟨rfl, by simp [init]⟩, fun _ _ h => by simp [init] at h⟩, trivial⟩

/-- An even count finds the writer between two calls of `store`. -/
theorem WriterOk.data_mem {s : State n W} {c : ℕ} (h : WriterOk s c) (hc : c % 2 = 0) :
    s.data ∈ s.stored := by
  cases hw : s.writer with
  | none => exact (h.rest hw).2
  | some w =>
    obtain ⟨val, i⟩ := w
    have := (h.busy val i hw).1
    omega

/-- The writer's steps go past the even count that `s1` stands for. -/
theorem ReaderOk.store {s s' : State n W} {c c' : ℕ} (h : ReaderOk s c)
    (hreader : s'.reader = s.reader) (hstored : s.stored ⊆ s'.stored)
    (hcount : ∀ c1, c1 % 2 = 0 → c1 ≤ c → c ≤ c1 + 2 * s.begun →
      c1 < c' ∧ c' ≤ c1 + 2 * s'.begun) : ReaderOk s' c' := by
  unfold ReaderOk at h ⊢
  rw [hreader]
  split at h
  · obtain ⟨c1, h1, h2, h3, h4, h5, -⟩ := h
    obtain ⟨hlt, hle⟩ := hcount c1 h2 h3 h4
    exact ⟨c1, h1, h2, hlt.le, hle, h5, fun he => absurd he.symm hlt.ne⟩
  · exact fun he => hstored (h he)
  · exact hstored h
  · trivial

theorem inv_storeBegin {s s' : State n W} {val : Fin n → W} (h : Inv s)
    (hc : FewStores s (.storeBegin val)) (hs : next s (.storeBegin val) = some s') : Inv s' := by
  obtain ⟨-, c, hw, hr⟩ := h
  simp only [next] at hs
  split at hs
  · rename_i hn
    obtain rfl := Option.some.inj hs
    obtain ⟨he, -⟩ := hw.rest hn
    refine ⟨hc, c + 1, ⟨?_, fun h => by simp at h, fun val' i h => ?_⟩, ?_⟩
    · simp only [hw.seq, ofNat_succ]
    · obtain ⟨rfl, rfl⟩ := Prod.mk.inj (Option.some.inj h)
      exact ⟨by omega, List.mem_cons_self, Nat.zero_le n, Copied.zero _ _⟩
    · refine hr.store rfl (List.subset_cons_self ..) fun c1 _ _ _ => ?_
      simp only
      omega
  · exact absurd hs (by simp)

theorem inv_storeWord {s s' : State n W} (h : Inv s) (hs : next s .storeWord = some s') :
    Inv s' := by
  obtain ⟨hf, c, hw, hr⟩ := h
  simp only [next] at hs
  split at hs
  · rename_i val i hsome
    split at hs
    · rename_i hi
      obtain rfl := Option.some.inj hs
      obtain ⟨ho, hm, hin, hpre⟩ := hw.busy val i hsome
      refine ⟨hf, c, ⟨hw.seq, fun h => by simp at h, fun val' i' h => ?_⟩, ?_⟩
      · obtain ⟨rfl, rfl⟩ := Prod.mk.inj (Option.some.inj h)
        exact ⟨ho, hm, hi, Copied.copyWord hpre⟩
      · -- the count is odd, so it is no longer the even count of `s1`
        refine hr.store rfl (List.Subset.refl _) fun c1 _ _ _ => ?_
        simp only
        omega
    · exact absurd hs (by simp)
  · exact absurd hs (by simp)

theorem inv_storeEnd {s s' : State n W} (h : Inv s) (hs : next s .storeEnd = some s') :
    Inv s' := by
  obtain ⟨hf, c, hw, hr⟩ := h
  simp only [next] at hs
  split at hs
  · rename_i val i hsome
    split at hs
    · rename_i hi
      obtain rfl := Option.some.inj hs
      obtain ⟨ho, hm, -, hpre⟩ := hw.busy val i hsome
      have hdata : s.data = val := funext fun j => hpre j (by omega)
      refine ⟨hf, c + 1, ⟨?_, fun _ => ⟨by omega, hdata ▸ hm⟩, fun _ _ h => by simp at h⟩, ?_⟩
      · simp only [hw.seq, ofNat_succ]
      · refine hr.store rfl (List.Subset.refl _) fun c1 _ _ _ => ?_
        simp only
        omega
    · exact absurd hs (by simp)
  · exact absurd hs (by simp)

theorem inv_loadBegin {s s' : State n W} {s1 s2 : UInt32} {out : Fin n → W} (h : Inv s)
    (hs : next s (.loadBegin s1 s2 out) = some s') : Inv s' := by
  obtain ⟨-, c, hw, -⟩ := h
  simp only [next] at hs
  split at hs
  · obtain rfl := Option.some.inj hs
    exact ⟨fun _ => by simp, c, ⟨hw.seq, hw.rest, hw.busy⟩, trivial⟩
  · obtain rfl := Option.some.inj hs
    exact ⟨fun _ => by simp, c, ⟨hw.seq, hw.rest, hw.busy⟩, trivial⟩
  · exact absurd hs (by simp)

theorem inv_loadSeq1 {s s' : State n W} (h : Inv s) (hc : NotStale s .loadSeq1)
    (hs : next s .loadSeq1 = some s') : Inv s' := by
  obtain ⟨hf, c, hw, -⟩ := h
  simp only [next] at hs
  split at hs
  · rename_i hpc
    obtain rfl := Option.some.inj hs
    have hbegun := hf ⟨by simp [hpc], by simp [hpc]⟩
    refine ⟨fun _ => hbegun, c, ⟨hw.seq, hw.rest, hw.busy⟩, ?_⟩
    unfold ReaderOk
    by_cases ho : odd s.seq
    · simp only [if_pos ho]
      exact fun h => absurd h.symm (hc ho)
    · simp only [if_neg ho]
      have he : ¬ c % 2 = 1 := by rwa [hw.seq, odd_ofNat] at ho
      exact ⟨c, hw.seq, by omega, le_refl c, by omega, Nat.zero_le n,
        fun _ => Copied.zero _ _⟩
  · exact absurd hs (by simp)

theorem inv_loadWord {s s' : State n W} (h : Inv s) (hs : next s .loadWord = some s') :
    Inv s' := by
  obtain ⟨hf, c, hw, hr⟩ := h
  simp only [next] at hs
  split at hs
  · rename_i i hpc
    split at hs
    · rename_i hi
      obtain rfl := Option.some.inj hs
      simp only [ReaderOk, hpc] at hr
      obtain ⟨c1, h1, h2, h3, h4, -, hpre⟩ := hr
      have hbegun := hf ⟨by simp [hpc], by simp [hpc]⟩
      exact ⟨fun _ => hbegun, c, ⟨hw.seq, hw.rest, hw.busy⟩, c1, h1, h2, h3, h4, hi,
        fun hcc => Copied.copyWord (hpre hcc)⟩
    · exact absurd hs (by simp)
  · exact absurd hs (by simp)

/-- **The second read of `seq_`.** The same `seq_` as before the copy means the same count, so no
step of the writer fell between the two reads and the copy is the whole of `data_`. -/
theorem inv_loadSeq2 {s s' : State n W} (h : Inv s) (hs : next s .loadSeq2 = some s') :
    Inv s' := by
  obtain ⟨hf, c, hw, hr⟩ := h
  simp only [next] at hs
  split at hs
  · rename_i i hpc
    split at hs
    · rename_i hi
      obtain rfl := Option.some.inj hs
      simp only [ReaderOk, hpc] at hr
      obtain ⟨c1, h1, h2, h3, h4, -, hpre⟩ := hr
      have hbegun := hf ⟨by simp [hpc], by simp [hpc]⟩
      refine ⟨fun _ => hbegun, c, ⟨hw.seq, hw.rest, hw.busy⟩, fun heq => ?_⟩
      have hcc : c = c1 := ofNat_inj_of_lt h3 h4 hbegun (by rw [← h1, ← hw.seq]; exact heq)
      have hout : s.reader.out = s.data := funext fun j => hpre hcc j (by omega)
      rw [show (_ : Fin n → W) = s.data from hout]
      exact hw.data_mem (by omega)
    · exact absurd hs (by simp)
  · exact absurd hs (by simp)

theorem inv_loadTest {s s' : State n W} (h : Inv s) (hs : next s .loadTest = some s') :
    Inv s' := by
  obtain ⟨hf, c, hw, hr⟩ := h
  simp only [next] at hs
  split at hs
  · rename_i hpc
    obtain rfl := Option.some.inj hs
    simp only [ReaderOk, hpc] at hr
    have hbegun := hf ⟨by simp [hpc], by simp [hpc]⟩
    refine ⟨fun _ => hbegun, c, ⟨hw.seq, hw.rest, hw.busy⟩, ?_⟩
    unfold ReaderOk
    by_cases heq : s.reader.s1 = s.reader.s2
    · simp only [ne_eq, heq, not_true_eq_false, if_false]
      exact hr heq
    · simp only [ne_eq, heq, not_false_eq_true, if_true]
  · exact absurd hs (by simp)

theorem inv_next {s s' : State n W} {a : Act n W} (h : Inv s)
    (hc : FewStores s a ∧ NotStale s a) (hs : next s a = some s') : Inv s' := by
  cases a with
  | storeBegin val => exact inv_storeBegin h hc.1 hs
  | storeWord => exact inv_storeWord h hs
  | storeEnd => exact inv_storeEnd h hs
  | loadBegin s1 s2 out => exact inv_loadBegin h hs
  | loadSeq1 => exact inv_loadSeq1 h hc.2 hs
  | loadWord => exact inv_loadWord h hs
  | loadSeq2 => exact inv_loadSeq2 h hs
  | loadTest => exact inv_loadTest h hs

theorem Inv.notTorn {s : State n W} (h : Inv s) : NotTorn s := by
  intro hpc
  obtain ⟨-, c, -, hr⟩ := h
  simpa only [ReaderOk, hpc] using hr

/-- **`load` returns no torn value**, for a value of any number of words and any interleaving of a
writer and a reader, in every run in which fewer than `2 ^ 31` stores begin during a `load` and no
`continue` is taken on a read of `seq_` that equals the `s2` of the pass before: what a `load` returns
is the initial value or the argument of one `store`. -/
theorem load_not_torn (v : Fin n → W) {s : State n W}
    (h : Reaches (Fires next) (fun s a => FewStores s a ∧ NotStale s a) (init v) s) : NotTorn s :=
  (h.inv (inv_init v) fun _ _ _ hi hc hs => inv_next hi hc hs).notTorn

/-- A `load` that retries once past a `store` under way. -/
def retryRun : List (Act 2 Bool) :=
  [.loadBegin 0 0 fun _ => false, .storeBegin fun _ => true, .loadSeq1, .loadTest, .storeWord,
    .storeWord, .storeEnd, .loadSeq1, .loadWord, .loadWord, .loadSeq2, .loadTest]

theorem load_not_torn_retry : ∃ s : State 2 Bool, s.reader.pc = .returned ∧ NotTorn s := by
  have h : (play next (fun s a => FewStores s a ∧ NotStale s a) (init fun _ => false)
      retryRun).any (fun s => decide (s.reader.pc = .returned)) = true := by decide
  obtain ⟨s, hs, hp⟩ := (Option.any_eq_true _ _).mp h
  exact ⟨s, of_decide_eq_true hp, load_not_torn _ (reaches_of_play hs)⟩

/-! ## The stale `s2` -/

/-- The writer begins a `store` after the reader has copied the first word and ends it after
`load` has returned: the second read leaves `1` in `s2`, and the next round reads the same `1`
into `s1`. -/
def tornRun : List (Act 2 Bool) :=
  [.loadBegin 0 0 fun _ => false, .loadSeq1, .loadWord, .storeBegin fun _ => true, .storeWord,
    .storeWord, .loadWord, .loadSeq2, .loadTest, .loadSeq1, .loadTest]

/-- **`load` can return a torn value**: half of the initial value, half of the first store. -/
theorem load_returns_torn : ¬ ∀ (n : ℕ) (W : Type), 2 ≤ n → ∀ (v : Fin n → W) (s : State n W),
    Reaches (Fires next) FewStores (init v) s → NotTorn s := by
  intro hall
  have h : (play next FewStores (init fun _ => false) tornRun).any
      (fun s => decide (s.reader.pc = .returned ∧ s.reader.out ∉ s.stored)) = true := by decide
  obtain ⟨s, hs, hp⟩ := (Option.any_eq_true _ _).mp h
  obtain ⟨hpc, hout⟩ := of_decide_eq_true hp
  exact hout (hall 2 Bool le_rfl _ s (reaches_of_play hs) hpc)

end Meridian.Seqlock
