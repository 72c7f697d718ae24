import Meridian.Lib.Coop
import Meridian.Lib.Run

/-!
# Threads of coroutines

Coroutines interleaved at their awaits. A thread that awaits waits for its request to be served and
then for its turn to resume; between the two, and before the first, any other thread may act.

* `Cfg`, `next`: the shared state with every thread's position, and one step of one thread or of the
  environment; `next_cases` says all that a step can do.
* `ThreadOk`: a thread keeps to its rules from where it stands.
* `AllOk.next`: **parallel composition**. While each step is within what the other threads rely on,
  all threads keep to their rules.
-/

namespace Meridian.Coop

open Prog

variable {S Req : Type} {Rep : Req → Type} {ε ι Ev : Type}

/-- Where a thread stands: not running, its request not yet served, or its reply there. -/
inductive Thread (S : Type) {Req : Type} (Rep : Req → Type) (ε : Type) : Type where
  | rest
  | waiting (r : Req) (k : Except ε (Rep r) → Prog S Rep ε Unit)
  | ready (p : Prog S Rep ε Unit)

namespace Thread

/-- The thread is not running. -/
def atRest : Thread S Rep ε → Bool
  | .rest => true
  | _ => false

theorem eq_rest {t : Thread S Rep ε} (h : t.atRest = true) : t = .rest := by
  cases t with
  | rest => rfl
  | waiting r k => exact absurd h (by simp [atRest])
  | ready p => exact absurd h (by simp [atRest])

/-- The request that is sent and not yet served. -/
def pending : Thread S Rep ε → Option Req
  | .waiting r _ => some r
  | _ => none

end Thread

/-- Run up to the next await. -/
def settle : Prog S Rep ε Unit → S → Thread S Rep ε × S
  | .done _, s => (.rest, s)
  | .throw _, s => (.rest, s)
  | .get k, s => settle (k s) s
  | .put s k, _ => settle k s
  | .await r k, s => (.waiting r k, s)

/-- A system of threads: how requests are served, when a thread at rest may start and what it then
runs, and what the environment may do by itself. -/
structure Threads (S : Type) {Req : Type} (Rep : Req → Type) (ε ι Ev : Type) where
  answer : Answer S Rep ε
  starts : ι → S → Bool
  body : ι → Prog S Rep ε Unit
  env : Ev → S → Option S

/-- The shared state, every thread's position, and the requests sent so far, each with the state it
was sent in. -/
structure Cfg (S : Type) {Req : Type} (Rep : Req → Type) (ε ι : Type) where
  shared : S
  thread : ι → Thread S Rep ε
  sent : List (Req × S)

/-- One step: a thread starts, its request is served, it resumes, or the environment acts. -/
inductive Act (ι Ev : Type) : Type where
  | start (i : ι)
  | serve (i : ι)
  | resume (i : ι)
  | env (e : Ev)
  deriving DecidableEq

variable [DecidableEq ι]

namespace Cfg

/-- Thread `i` moves to `t`, leaving the state `s`. -/
def move (c : Cfg S Rep ε ι) (i : ι) (t : Thread S Rep ε) (s : S) : Cfg S Rep ε ι where
  shared := s
  thread j := if j = i then t else c.thread j
  sent :=
    match t.pending with
    | some r => (r, s) :: c.sent
    | none => c.sent

variable {c : Cfg S Rep ε ι} {i j : ι} {t : Thread S Rep ε} {s : S}

@[simp] theorem move_shared : (c.move i t s).shared = s := rfl

@[simp] theorem move_thread_self : (c.move i t s).thread i = t := if_pos rfl

theorem move_thread_of_ne (h : j ≠ i) : (c.move i t s).thread j = c.thread j := if_neg h

theorem mem_sent_move {x : Req × S} (h : x ∈ (c.move i t s).sent) :
    x ∈ c.sent ∨ t.pending = some x.1 ∧ x.2 = s := by
  unfold move at h
  simp only at h
  split at h
  · rename_i r hr
    rcases List.mem_cons.mp h with rfl | h
    · exact .inr ⟨hr, rfl⟩
    · exact .inl h
  · exact .inl h

end Cfg

namespace Threads

variable (T : Threads S Rep ε ι Ev)

/-- One step, where it is possible. -/
def next (c : Cfg S Rep ε ι) : Act ι Ev → Option (Cfg S Rep ε ι)
  | .start i =>
    match c.thread i with
    | .rest =>
      if T.starts i c.shared then
        let x := settle (T.body i) c.shared
        some (c.move i x.1 x.2)
      else none
    | _ => none
  | .serve i =>
    match c.thread i with
    | .waiting r k =>
      let x := T.answer r c.shared
      some (c.move i (.ready (k x.1)) x.2)
    | _ => none
  | .resume i =>
    match c.thread i with
    | .ready p =>
      let x := settle p c.shared
      some (c.move i x.1 x.2)
    | _ => none
  | .env e => (T.env e c.shared).map fun s => { c with shared := s }

/-- What one step does. -/
inductive Steps (c : Cfg S Rep ε ι) : Act ι Ev → Cfg S Rep ε ι → Prop
  | start {i : ι} (ht : c.thread i = .rest) (hs : T.starts i c.shared = true) :
    Steps c (.start i) (c.move i (settle (T.body i) c.shared).1 (settle (T.body i) c.shared).2)
  | serve {i : ι} {r : Req} {k : Except ε (Rep r) → Prog S Rep ε Unit}
    (ht : c.thread i = .waiting r k) :
    Steps c (.serve i) (c.move i (.ready (k (T.answer r c.shared).1)) (T.answer r c.shared).2)
  | resume {i : ι} {p : Prog S Rep ε Unit} (ht : c.thread i = .ready p) :
    Steps c (.resume i) (c.move i (settle p c.shared).1 (settle p c.shared).2)
  | env {e : Ev} {s : S} (he : T.env e c.shared = some s) : Steps c (.env e) { c with shared := s }

variable {T} {c c' : Cfg S Rep ε ι} {a : Act ι Ev}

theorem next_cases (h : T.next c a = some c') : T.Steps c a c' := by
  cases a with
  | start i =>
    unfold next at h
    simp only at h
    split at h
    · rename_i ht
      split at h
      · rename_i hs
        exact Option.some.inj h ▸ .start ht hs
      · exact absurd h (by simp)
    · exact absurd h (by simp)
  | serve i =>
    unfold next at h
    simp only at h
    split at h
    · rename_i r k ht
      exact Option.some.inj h ▸ .serve ht
    · exact absurd h (by simp)
  | resume i =>
    unfold next at h
    simp only at h
    split at h
    · rename_i p ht
      exact Option.some.inj h ▸ .resume ht
    · exact absurd h (by simp)
  | env e =>
    obtain ⟨s, hs, rfl⟩ := Option.map_eq_some_iff.mp h
    exact .env hs

/-- The same threads, their requests served in another way. -/
def serving (T : Threads S Rep ε ι Ev) (A : Answer S Rep ε) : Threads S Rep ε ι Ev :=
  { T with answer := A }

/-- A step that serves no request differently is a step of both systems. -/
theorem next_serving {A : Answer S Rep ε} (h : T.next c a = some c')
    (hA : ∀ i r, a = .serve i → (c.thread i).pending = some r → T.answer r c.shared = A r c.shared) :
    (T.serving A).next c a = some c' := by
  cases a with
  | start i => exact h
  | resume i => exact h
  | env e => exact h
  | serve i =>
    unfold next at h ⊢
    simp only at h ⊢
    split at h
    · rename_i r k ht
      rw [hA i r rfl (congrArg Thread.pending ht)] at h
      exact h
    · exact absurd h (by simp)

end Threads

/-! ## Threads that keep to their rules -/

/-- From where it stands the thread keeps to the rules `c`, and `P` holds whenever it is at rest. -/
def ThreadOk (A : Answer S Rep ε) (c : Rules S Req) (P : S → Prop) :
    Thread S Rep ε → S → Prop
  | .rest, s => P s
  | .waiting r k, s => ∀ s1, c.rely s s1 → c.guar s1 (A r s1).2 ∧
      ∀ s2, c.rely (A r s1).2 s2 → wp A c (fun _ => P) (k (A r s1).1) s2
  | .ready p, s => ∀ s1, c.rely s s1 → wp A c (fun _ => P) p s1

/-- Rules under which several steps of the others are like one. -/
structure Rules.Closed (c : Rules S Req) (P : S → Prop) : Prop where
  refl : ∀ s, c.rely s s
  trans : ∀ {s s' s''}, c.rely s s' → c.rely s' s'' → c.rely s s''
  stable : ∀ {s s'}, c.rely s s' → P s → P s'

variable {A : Answer S Rep ε} {c : Rules S Req} {P : S → Prop} {t : Thread S Rep ε} {s s' : S}

/-- What the others do does not matter. -/
theorem ThreadOk.of_rely (hc : c.Closed P) (h : ThreadOk A c P t s) (hr : c.rely s s') :
    ThreadOk A c P t s' := by
  cases t with
  | rest => exact hc.stable hr h
  | waiting r k => exact fun s1 h1 => h s1 (hc.trans hr h1)
  | ready p => exact fun s1 h1 => h s1 (hc.trans hr h1)

theorem ThreadOk.mono {P' : S → Prop} (hP : ∀ s, P s → P' s) (h : ThreadOk A c P t s) :
    ThreadOk A c P' t s := by
  cases t with
  | rest => exact hP _ h
  | waiting r k =>
    exact fun s1 h1 => ⟨(h s1 h1).1, fun s2 h2 => wp_mono (fun _ => hP) ((h s1 h1).2 s2 h2)⟩
  | ready p => exact fun s1 h1 => wp_mono (fun _ => hP) (h s1 h1)

/-- Up to its next await a program keeps to the rules. -/
theorem settle_ok : ∀ {p : Prog S Rep ε Unit} {s : S}, wp A c (fun _ => P) p s →
    Relation.ReflTransGen c.own s (settle p s).2 ∧
      ThreadOk A c P (settle p s).1 (settle p s).2 ∧
      ∀ r, (settle p s).1.pending = some r → c.may r (settle p s).2 := by
  intro p
  induction p with
  | done a => exact fun h => ⟨.refl, h, fun r hr => absurd hr (by simp [settle, Thread.pending])⟩
  | throw e => exact fun h => ⟨.refl, h, fun r hr => absurd hr (by simp [settle, Thread.pending])⟩
  | get k ih => exact fun h => ih _ h
  | put s' k ih =>
    intro s h
    obtain ⟨hg, hok, hmay⟩ := ih h.2
    exact ⟨.head h.1 hg, hok, hmay⟩
  | await r k ih =>
    refine fun h => ⟨.refl, h.2, fun r' hr => ?_⟩
    obtain rfl := Option.some.inj hr
    exact h.1

/-- All threads keep to their rules, and `P i` holds whenever thread `i` is at rest. -/
def AllOk (A : Answer S Rep ε) (c : ι → Rules S Req) (P : ι → S → Prop) (x : Cfg S Rep ε ι) : Prop :=
  ∀ i, ThreadOk A (c i) (P i) (x.thread i) x.shared

/-- The thread that acts. -/
def Act.thread : Act ι Ev → Option ι
  | .start i | .serve i | .resume i => some i
  | .env _ => none

/-- What a step of a thread does to the shared state: what the thread may do itself, some number of
times, or what serving its request may do. -/
def Act.Guaranteed (c : ι → Rules S Req) (s s' : S) : Act ι Ev → Prop
  | .start i | .resume i => Relation.ReflTransGen (c i).own s s'
  | .serve i => (c i).guar s s'
  | .env _ => True

variable {T : Threads S Rep ε ι Ev} {c : ι → Rules S Req} {P : ι → S → Prop}
  {x x' : Cfg S Rep ε ι} {a : Act ι Ev}

/-- Thread `i` has moved, and what that did is within what the others rely on. -/
theorem AllOk.move (hc : ∀ i, (c i).Closed (P i)) (h : AllOk A c P x) {i : ι}
    (ht : ThreadOk A (c i) (P i) t s) (hr : ∀ j, i ≠ j → (c j).rely x.shared s) :
    AllOk A c P (x.move i t s) := by
  intro j
  rw [Cfg.move_shared]
  by_cases hj : j = i
  · subst hj
    rwa [Cfg.move_thread_self]
  · rw [Cfg.move_thread_of_ne hj]
    exact (h j).of_rely (hc j) (hr j (Ne.symm hj))

/-- **One step of the threads.** A step does what the acting thread guarantees, and if that is
within what the others rely on, then all threads still keep to their rules; a request that is sent
may be sent. -/
theorem AllOk.next (hx : AllOk T.answer c P x) (hc : ∀ i, (c i).Closed (P i))
    (hbody : ∀ i, P i x.shared → T.starts i x.shared = true →
      wp T.answer (c i) (fun _ => P i) (T.body i) x.shared)
    (hrely : a.Guaranteed c x.shared x'.shared → ∀ j, a.thread ≠ some j →
      (c j).rely x.shared x'.shared)
    (h : T.next x a = some x') :
    AllOk T.answer c P x' ∧ a.Guaranteed c x.shared x'.shared ∧
      ∀ y ∈ x'.sent, y ∈ x.sent ∨
        y.2 = x'.shared ∧ ∃ i, a.thread = some i ∧ (c i).may y.1 y.2 := by
  have hne : ∀ {i j : ι}, i ≠ j → some i ≠ some j := fun hij he => hij (Option.some.inj he)
  cases Threads.next_cases h with
  | @start i ht hs =>
    have hP := hx i
    rw [ht] at hP
    obtain ⟨hg, hok, hmay⟩ := settle_ok (hbody i hP hs)
    refine ⟨hx.move hc hok fun j hij => hrely hg j (hne hij), hg, fun y hy => ?_⟩
    exact (Cfg.mem_sent_move hy).imp_right fun ⟨hr, hs⟩ => ⟨hs, i, rfl, hs ▸ hmay _ hr⟩
  | @serve i r k ht =>
    have hok := hx i
    rw [ht] at hok
    obtain ⟨hg, hrest⟩ := hok x.shared ((hc i).refl _)
    refine ⟨hx.move hc hrest fun j hij => hrely hg j (hne hij), hg, fun y hy => ?_⟩
    exact (Cfg.mem_sent_move hy).imp_right fun ⟨hr, _⟩ => absurd hr (by simp [Thread.pending])
  | @resume i p ht =>
    have hok := hx i
    rw [ht] at hok
    obtain ⟨hg, hok, hmay⟩ := settle_ok (hok x.shared ((hc i).refl _))
    refine ⟨hx.move hc hok fun j hij => hrely hg j (hne hij), hg, fun y hy => ?_⟩
    exact (Cfg.mem_sent_move hy).imp_right fun ⟨hr, hs⟩ => ⟨hs, i, rfl, hs ▸ hmay _ hr⟩
  | @env e s he =>
    exact ⟨fun i => (hx i).of_rely (hc i) (hrely trivial i (by simp [Act.thread])), trivial,
      fun y hy => .inl hy⟩

end Meridian.Coop
