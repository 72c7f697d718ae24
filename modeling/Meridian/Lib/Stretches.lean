import Meridian.Lib.Threads

/-!
# What a coroutine does between two awaits

Between two awaits a coroutine runs alone, so a relation between the state a stretch begins in and
the state it ends in needs no assumption on the others. `Stretch R Q p s0 s` says that the program
`p`, in a stretch that began in `s0` and has come to `s`, ends this stretch and every later one in
`R` at an await and in `Q` at its end, whatever it is replied and whatever states it resumes in.

* `stretch_bind`, `stretch_tryCatch`, `stretch_call`: one rule for each way to build programs;
* `stretch_of_wp`: a program each of whose changes keeps `R`;
* `StretchThread.next`: a step of a thread is one stretch.
-/

namespace Meridian.Coop

open Prog

variable {S Req : Type} {Rep : Req → Type} {ε ι Ev α β : Type}

/-- In a stretch from `s0`, now in `s`: each stretch ends in `R` at an await and in `Q` at the end. -/
def Stretch (A : Answer S Rep ε) (R : S → S → Prop) (Q : Except ε α → S → S → Prop) :
    Prog S Rep ε α → S → S → Prop
  | .done a, s0, s => Q (.ok a) s0 s
  | .throw e, s0, s => Q (.error e) s0 s
  | .get k, s0, s => Stretch A R Q (k s) s0 s
  | .put s' k, s0, _ => Stretch A R Q k s0 s'
  | .await r k, s0, s => R s0 s ∧ ∀ s1 s2, Stretch A R Q (k (A r s1).1) s2 s2

variable {A : Answer S Rep ε} {R R' : S → S → Prop} {Q Q' : Except ε α → S → S → Prop} {s0 s : S}

theorem stretch_mono (hR : ∀ s0 s, R s0 s → R' s0 s) (hQ : ∀ x s0 s, Q x s0 s → Q' x s0 s) :
    ∀ {p : Prog S Rep ε α} {s0 s : S}, Stretch A R Q p s0 s → Stretch A R' Q' p s0 s := by
  intro p
  induction p with
  | done a => exact fun h => hQ _ _ _ h
  | throw e => exact fun h => hQ _ _ _ h
  | get k ih => exact fun h => ih _ h
  | put s' k ih => exact fun h => ih h
  | await r k ih => exact fun h => ⟨hR _ _ h.1, fun s1 s2 => ih _ (h.2 s1 s2)⟩

/-- What a program followed by `f` comes to. -/
def thenStretch (A : Answer S Rep ε) (R : S → S → Prop) (f : α → Prog S Rep ε β)
    (Q : Except ε β → S → S → Prop) : Except ε α → S → S → Prop
  | .ok a, s0, s => Stretch A R Q (f a) s0 s
  | .error e, s0, s => Q (.error e) s0 s

/-- What a program guarded by the handler `h` comes to. -/
def catchStretch (A : Answer S Rep ε) (R : S → S → Prop) (h : ε → Prog S Rep ε α)
    (Q : Except ε α → S → S → Prop) : Except ε α → S → S → Prop
  | .ok a, s0, s => Q (.ok a) s0 s
  | .error e, s0, s => Stretch A R Q (h e) s0 s

theorem stretch_bind {Q : Except ε β → S → S → Prop} {f : α → Prog S Rep ε β} :
    ∀ {p : Prog S Rep ε α} {s0 s : S},
      Stretch A R Q (p.bind f) s0 s ↔ Stretch A R (thenStretch A R f Q) p s0 s := by
  intro p
  induction p with
  | done a => exact Iff.rfl
  | throw e => exact Iff.rfl
  | get k ih => exact fun {s0 s} => ih s
  | put s' k ih => exact ih
  | await r k ih => exact and_congr_right fun _ => forall₂_congr fun s1 s2 => ih _

theorem stretch_attempt {Q : Except ε (Except ε α) → S → S → Prop} :
    ∀ {p : Prog S Rep ε α} {s0 s : S},
      Stretch A R Q p.attempt s0 s ↔ Stretch A R (fun x => Q (.ok x)) p s0 s := by
  intro p
  induction p with
  | done a => exact Iff.rfl
  | throw e => exact Iff.rfl
  | get k ih => exact fun {s0 s} => ih s
  | put s' k ih => exact ih
  | await r k ih => exact and_congr_right fun _ => forall₂_congr fun s1 s2 => ih _

theorem stretch_tryCatch {h : ε → Prog S Rep ε α} {p : Prog S Rep ε α} :
    Stretch A R Q (p.tryCatch h) s0 s ↔ Stretch A R (catchStretch A R h Q) p s0 s := by
  rw [Prog.tryCatch, stretch_bind, stretch_attempt]
  constructor
  · exact stretch_mono (fun _ _ => id) fun x s0 s hx => by cases x <;> exact hx
  · exact stretch_mono (fun _ _ => id) fun x s0 s hx => by cases x <;> exact hx

theorem stretch_call (r : Req) {Q : Except ε (Rep r) → S → S → Prop} :
    Stretch A R Q (call r) s0 s ↔ R s0 s ∧ ∀ s1 s2, Q (A r s1).1 s2 s2 := by
  unfold call
  refine and_congr_right fun _ => forall₂_congr fun s1 s2 => ?_
  cases (A r s1).1 <;> exact Iff.rfl

/-- A program each of whose changes, and with it each stretch, keeps `R`. -/
theorem stretch_of_wp {c : Rules S Req} {I : S → Prop} (hrely : ∀ s s', c.rely s s')
    (hown : ∀ {s0 s s'}, R s0 s → c.own s s' → R s0 s') (hR : ∀ s, R s s) :
    ∀ {p : Prog S Rep ε α} {s0 s : S}, wp A c (fun _ => I) p s → R s0 s →
      Stretch A R (fun _ => R) p s0 s := by
  intro p
  induction p with
  | done a => exact fun _ h => h
  | throw e => exact fun _ h => h
  | get k ih => exact fun hp h => ih _ hp h
  | put s' k ih => exact fun hp h => ih hp.2 (hown h hp.1)
  | await r k ih =>
    exact fun hp h => ⟨h, fun s1 s2 =>
      ih _ ((hp.2 s1 (hrely _ s1)).2 s2 (hrely _ s2)) (hR s2)⟩

/-! ## Threads -/

/-- Every stretch of the thread to come ends in `R` or `Q`. -/
def StretchThread (A : Answer S Rep ε) (R : S → S → Prop) (Q : Except ε Unit → S → S → Prop) :
    Thread S Rep ε → Prop
  | .rest => True
  | .waiting r k => ∀ s1 s2, Stretch A R Q (k (A r s1).1) s2 s2
  | .ready p => ∀ s, Stretch A R Q p s s

variable {Q : Except ε Unit → S → S → Prop}

/-- Run up to the next await or to the end, which is one stretch. -/
theorem stretch_settle : ∀ {p : Prog S Rep ε Unit} {s0 s : S}, Stretch A R Q p s0 s →
    StretchThread A R Q (settle p s).1 ∧
      ((settle p s).1 = .rest ∧ (∃ x, Q x s0 (settle p s).2) ∨ R s0 (settle p s).2) := by
  intro p
  induction p with
  | done a => exact fun h => ⟨trivial, Or.inl ⟨rfl, _, h⟩⟩
  | throw e => exact fun h => ⟨trivial, Or.inl ⟨rfl, _, h⟩⟩
  | get k ih => exact fun h => ih _ h
  | put s' k ih => exact fun h => ih h
  | await r k ih => exact fun h => ⟨h.2, Or.inr h.1⟩

variable [DecidableEq ι] {T : Threads S Rep ε ι Ev} {x x' : Cfg S Rep ε ι} {a : Act ι Ev} {i : ι}

/-- **A step of a thread is one stretch**, if it is not the serving of its request. -/
theorem StretchThread.next (h : StretchThread T.answer R Q (x.thread i))
    (hbody : ∀ s, Stretch T.answer R Q (T.body i) s s) (hn : T.next x a = some x') :
    StretchThread T.answer R Q (x'.thread i) ∧ (a = .start i ∨ a = .resume i →
      x'.thread i = .rest ∧ (∃ e, Q e x.shared x'.shared) ∨ R x.shared x'.shared) := by
  cases Threads.next_cases hn with
  | @start j ht hs =>
    by_cases hj : i = j
    · subst hj
      obtain ⟨hth, hend⟩ := stretch_settle (hbody x.shared)
      rw [Cfg.move_thread_self, Cfg.move_shared]
      exact ⟨hth, fun _ => hend⟩
    · rw [Cfg.move_thread_of_ne hj]
      refine ⟨h, fun ha => absurd ?_ hj⟩
      rcases ha with ha | ha
      · exact (Act.start.inj ha).symm
      · cases ha
  | @serve j r k ht =>
    refine ⟨?_, fun ha => by rcases ha with ha | ha <;> cases ha⟩
    by_cases hj : i = j
    · subst hj
      rw [Cfg.move_thread_self]
      rw [ht] at h
      exact fun s => h x.shared s
    · rw [Cfg.move_thread_of_ne hj]
      exact h
  | @resume j p ht =>
    by_cases hj : i = j
    · subst hj
      rw [ht] at h
      obtain ⟨hth, hend⟩ := stretch_settle (h x.shared)
      rw [Cfg.move_thread_self, Cfg.move_shared]
      exact ⟨hth, fun _ => hend⟩
    · rw [Cfg.move_thread_of_ne hj]
      refine ⟨h, fun ha => absurd ?_ hj⟩
      rcases ha with ha | ha
      · cases ha
      · exact (Act.resume.inj ha).symm
  | env he => exact ⟨h, fun ha => by rcases ha with ha | ha <;> cases ha⟩

end Meridian.Coop
