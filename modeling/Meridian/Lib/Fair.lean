import Meridian.Lib.Threads
import Mathlib.Data.Nat.Find

/-!
# Infinite runs of threads, fair to a thread

* `Threads.Trace`: an infinite run; `Trace.Fair i`: again and again thread `i` acts or cannot.
* `Trace.starts_again`: on a trace fair to it, a thread that is never kept from starting comes to
  rest and starts again, whatever the others do.
* `exists_prepend`, `exists_alone`: concrete traces, played up to some point or of one thread alone.
-/

namespace Meridian.Coop.Threads

open Run

variable {S Req : Type} {Rep : Req → Type} {ε ι Ev : Type} [DecidableEq ι]

/-- An infinite run. -/
structure Trace (T : Threads S Rep ε ι Ev) where
  state : ℕ → Cfg S Rep ε ι
  act : ℕ → Act ι Ev
  step : ∀ n, T.next (state n) (act n) = some (state (n + 1))

/-- Thread `i` can act. -/
def Enabled (T : Threads S Rep ε ι Ev) (i : ι) (c : Cfg S Rep ε ι) : Prop :=
  c.thread i = .rest → T.starts i c.shared = true

variable {T : Threads S Rep ε ι Ev} {c c' : Cfg S Rep ε ι} {a : Act ι Ev} {i : ι}

/-- A step of another thread or of the environment leaves the thread where it stands. -/
theorem thread_of_next (h : T.next c a = some c') (ha : a.thread ≠ some i) :
    c'.thread i = c.thread i := by
  cases next_cases h with
  | start _ _ | serve _ | resume _ =>
    exact Cfg.move_thread_of_ne fun hi => ha (congrArg some hi.symm)
  | env _ => rfl

/-- A thread at rest that acts starts. -/
theorem Steps.of_rest (h : T.Steps c a c') (ha : a.thread = some i) (ht : c.thread i = .rest) :
    a = .start i ∧ c'.thread i = (settle (T.body i) c.shared).1 := by
  cases h with
  | start _ _ =>
    obtain rfl := Option.some.inj ha
    exact ⟨rfl, Cfg.move_thread_self⟩
  | serve ht' | resume ht' =>
    obtain rfl := Option.some.inj ha
    cases ht.symm.trans ht'
  | env _ => cases ha

/-- A thread that waits has its request served. -/
theorem Steps.of_waiting {r : Req} {k : Except ε (Rep r) → Prog S Rep ε Unit} (h : T.Steps c a c')
    (ha : a.thread = some i) (ht : c.thread i = .waiting r k) :
    a = .serve i ∧ c'.thread i = .ready (k (T.answer r c.shared).1) ∧
      c'.shared = (T.answer r c.shared).2 := by
  cases h with
  | serve ht' =>
    obtain rfl := Option.some.inj ha
    cases ht.symm.trans ht'
    exact ⟨rfl, Cfg.move_thread_self, rfl⟩
  | start ht' _ | resume ht' =>
    obtain rfl := Option.some.inj ha
    cases ht.symm.trans ht'
  | env _ => cases ha

/-- A thread with its reply resumes. -/
theorem Steps.of_ready {p : Prog S Rep ε Unit} (h : T.Steps c a c') (ha : a.thread = some i)
    (ht : c.thread i = .ready p) : c'.thread i = (settle p c.shared).1 := by
  cases h with
  | resume ht' =>
    obtain rfl := Option.some.inj ha
    cases ht.symm.trans ht'
    exact Cfg.move_thread_self
  | start ht' _ | serve ht' =>
    obtain rfl := Option.some.inj ha
    cases ht.symm.trans ht'
  | env _ => cases ha

/-- What a thread that can act does next. -/
theorem exists_next (h : T.Enabled i c) :
    ∃ (a : Act ι Ev) (c' : Cfg S Rep ε ι), a.thread = some i ∧ T.next c a = some c' := by
  cases ht : c.thread i with
  | rest =>
    let x := settle (T.body i) c.shared
    refine ⟨.start i, c.move i x.1 x.2, rfl, ?_⟩
    unfold next
    simp only [ht, h ht, if_true, x]
  | waiting r k =>
    let x := T.answer r c.shared
    refine ⟨.serve i, c.move i (.ready (k x.1)) x.2, rfl, ?_⟩
    unfold next
    simp only [ht, x]
  | ready p =>
    let x := settle p c.shared
    refine ⟨.resume i, c.move i x.1 x.2, rfl, ?_⟩
    unfold next
    simp only [ht, x]

/-- A number that grows past `j` does so at some step. -/
theorem exists_crossing {f : ℕ → ℕ} {j m l : ℕ} (hm : f m ≤ j) (hl : m ≤ l) (h : j < f l) :
    ∃ k ≥ m, f k ≤ j ∧ j < f (k + 1) := by
  induction l, hl using Nat.le_induction with
  | base => exact absurd hm (not_le.mpr h)
  | succ l hl ih =>
    by_cases hj : j < f l
    · exact ih hj
    · exact ⟨l, hl, not_lt.mp hj, h⟩

namespace Trace

/-- Again and again thread `i` acts, or it cannot. -/
def Fair (t : T.Trace) (i : ι) : Prop :=
  ∀ n, ∃ m ≥ n, (t.act m).thread = some i ∨ ¬T.Enabled i (t.state m)

variable {t : T.Trace} {n : ℕ}

/-- A condition that every step keeps holds from when it first does. -/
theorem inv {I : Cfg S Rep ε ι → Prop} (h : I (t.state n))
    (hstep : ∀ m, n ≤ m → I (t.state m) → I (t.state (m + 1))) : ∀ m, n ≤ m → I (t.state m) :=
  fun _ hm => Nat.le_induction h hstep _ hm

/-! ## A thread that is never kept from starting -/

section Enabled

variable (hfair : t.Fair i) (hen : ∀ n, T.Enabled i (t.state n))
include hfair hen

/-- The thread acts from where it stands. -/
theorem acts (n : ℕ) :
    ∃ m ≥ n, (t.act m).thread = some i ∧ (t.state m).thread i = (t.state n).thread i := by
  have hex : ∃ m, n ≤ m ∧ (t.act m).thread = some i := by
    obtain ⟨m, hm, hact | hnot⟩ := hfair n
    · exact ⟨m, hm, hact⟩
    · exact absurd (hen m) hnot
  classical
  obtain ⟨hle, hact⟩ := Nat.find_spec hex
  have hstay : ∀ m, n ≤ m → m ≤ Nat.find hex → (t.state m).thread i = (t.state n).thread i := by
    intro m hm
    induction m, hm using Nat.le_induction with
    | base => exact fun _ => rfl
    | succ m hm ih =>
      intro hlt
      have hother : (t.act m).thread ≠ some i := fun h => Nat.find_min hex hlt ⟨hm, h⟩
      exact (thread_of_next (t.step m) hother).trans (ih (Nat.le_of_succ_le hlt))
  exact ⟨_, hle, hact, hstay _ hle le_rfl⟩

/-- A thread at rest starts. -/
theorem starts_of_rest (h : (t.state n).thread i = .rest) :
    ∃ m ≥ n, t.act m = .start i ∧
      (t.state (m + 1)).thread i = (settle (T.body i) (t.state m).shared).1 := by
  obtain ⟨m, hm, hact, hthread⟩ := acts hfair hen n
  exact ⟨m, hm, (next_cases (t.step m)).of_rest hact (hthread.trans h)⟩

/-- The request of a thread is served. -/
theorem served_of_waiting {r : Req} {k : Except ε (Rep r) → Prog S Rep ε Unit}
    (h : (t.state n).thread i = .waiting r k) :
    ∃ m ≥ n, t.act m = .serve i ∧ (t.state m).thread i = .waiting r k ∧
      (t.state (m + 1)).thread i = .ready (k (T.answer r (t.state m).shared).1) ∧
      (t.state (m + 1)).shared = (T.answer r (t.state m).shared).2 := by
  obtain ⟨m, hm, hact, hthread⟩ := acts hfair hen n
  rw [h] at hthread
  obtain ⟨hserve, hready, hshared⟩ := (next_cases (t.step m)).of_waiting hact hthread
  exact ⟨m, hm, hserve, hthread, hready, hshared⟩

/-- A thread with its reply resumes. -/
theorem resumes_of_ready {p : Prog S Rep ε Unit} (h : (t.state n).thread i = .ready p) :
    ∃ m ≥ n, (t.state (m + 1)).thread i = (settle p (t.state m).shared).1 := by
  obtain ⟨m, hm, hact, hthread⟩ := acts hfair hen n
  exact ⟨m, hm, (next_cases (t.step m)).of_ready hact (hthread.trans h)⟩

/-- A program comes to its end. -/
theorem rests_of_settle : ∀ {p : Prog S Rep ε Unit} {s : S} {n : ℕ},
    (t.state n).thread i = (settle p s).1 → ∃ m ≥ n, (t.state m).thread i = .rest := by
  intro p
  induction p with
  | done _ | throw _ => exact fun h => ⟨_, le_rfl, h⟩
  | get k ih => exact fun h => ih _ h
  | put s' k ih => exact fun h => ih h
  | await r k ih =>
    intro s n h
    obtain ⟨m, hm, -, -, hready, -⟩ := served_of_waiting hfair hen h
    obtain ⟨m', hm', hsettle⟩ := resumes_of_ready hfair hen hready
    obtain ⟨m'', hm'', hrest⟩ := ih _ hsettle
    exact ⟨m'', by omega, hrest⟩

theorem rests (n : ℕ) : ∃ m ≥ n, (t.state m).thread i = .rest := by
  cases ht : (t.state n).thread i with
  | rest => exact ⟨n, le_rfl, ht⟩
  | waiting r k => exact rests_of_settle hfair hen (p := .await r k) (s := (t.state n).shared) ht
  | ready p =>
    obtain ⟨m, hm, hsettle⟩ := resumes_of_ready hfair hen ht
    obtain ⟨m', hm', hrest⟩ := rests_of_settle hfair hen hsettle
    exact ⟨m', by omega, hrest⟩

/-- **The thread starts again**, however long it takes: under fairness a thread whose body always
ends is at its beginning again and again. -/
theorem starts_again (n : ℕ) :
    ∃ m ≥ n, t.act m = .start i ∧
      (t.state (m + 1)).thread i = (settle (T.body i) (t.state m).shared).1 := by
  obtain ⟨m, hm, hrest⟩ := rests hfair hen n
  obtain ⟨m', hm', hstart⟩ := starts_of_rest hfair hen hrest
  exact ⟨m', by omega, hstart⟩

end Enabled

/-! ## Concrete traces -/

/-- A trace on which nothing changes any more. -/
def stay (c : Cfg S Rep ε ι) (a : Act ι Ev) (h : T.next c a = some c) : T.Trace :=
  ⟨fun _ => c, fun _ => a, fun _ => h⟩

/-- A trace with one step before it. -/
def cons (c : Cfg S Rep ε ι) (a : Act ι Ev) (t : T.Trace) (h : T.next c a = some (t.state 0)) :
    T.Trace where
  state
    | 0 => c
    | n + 1 => t.state n
  act
    | 0 => a
    | n + 1 => t.act n
  step
    | 0 => h
    | n + 1 => t.step n

/-- A trace continues a play. -/
theorem exists_prepend (t : T.Trace) : ∀ {as : List (Act ι Ev)} {c : Cfg S Rep ε ι},
    play T.next (fun _ _ => True) c as = some (t.state 0) →
      ∃ u : T.Trace,
        (∀ n ≤ as.length, play T.next (fun _ _ => True) c (as.take n) = some (u.state n)) ∧
        (∀ n a, as[n]? = some a → u.act n = a) ∧
        ∀ n, u.state (n + as.length) = t.state n ∧ u.act (n + as.length) = t.act n
  | [], c, h => by
    refine ⟨t, fun n hn => ?_, fun n a ha => by simp at ha, fun _ => ⟨rfl, rfl⟩⟩
    obtain rfl := Nat.le_zero.mp hn
    exact h
  | a :: as, c, h => by
    obtain ⟨-, c₁, hstep, hplay⟩ := play_cons.mp h
    obtain ⟨u, hstate, hact, hrest⟩ := exists_prepend t hplay
    have h0 : c₁ = u.state 0 := Option.some.inj (hstate 0 (Nat.zero_le _))
    refine ⟨cons c a u (h0 ▸ hstep), fun n hn => ?_, fun n b hb => ?_, hrest⟩
    · cases n with
      | zero => rfl
      | succ n => exact play_cons.mpr ⟨trivial, c₁, hstep, hstate n (Nat.le_of_succ_le_succ hn)⟩
    · cases n with
      | zero => exact Option.some.inj hb
      | succ n => exact hact n b hb

/-- A thread that can always act may act alone forever. -/
theorem exists_alone {I : Cfg S Rep ε ι → Prop} (h0 : I c) (hen : ∀ c, I c → T.Enabled i c)
    (hkeep : ∀ c a c', I c → a.thread = some i → T.next c a = some c' → I c') :
    ∃ t : T.Trace, t.state 0 = c ∧ (∀ n, I (t.state n)) ∧ ∀ n, (t.act n).thread = some i := by
  choose act next hact hnext using fun x : {c // I c} => exists_next (hen x.1 x.2)
  let go : ℕ → {c // I c} := fun n => Nat.rec ⟨c, h0⟩
    (fun _ x => ⟨next x, hkeep x.1 _ _ x.2 (hact x) (hnext x)⟩) n
  exact ⟨⟨fun n => (go n).1, fun n => act (go n), fun n => hnext (go n)⟩, rfl, fun n => (go n).2,
    fun n => hact (go n)⟩

end Trace

end Meridian.Coop.Threads
