import Mathlib.Algebra.BigOperators.Group.Finset.Basic
import Mathlib.Algebra.Order.BigOperators.Group.Finset
import Mathlib.Algebra.Ring.Nat
import Meridian.Lib.Threads

/-!
# The requests that coroutines send

A `Protocol` is an automaton that reads what one coroutine sends and what it is replied, and says which
requests are allowed. `Follows P I Q p q` says that the program `p`, in the protocol's state `q`, sends
only allowed requests, whatever it is replied and whatever states in `I` it reads, and ends in `Q`;
`Obeys` is that from every state of the protocol.

* `follows_bind`, `follows_tryCatch`, `follows_call`: one rule for each way to build programs;
* `Obedient.next`: while all threads obey, each at its own state of the protocol, every request they
  send is allowed;
* `Account`: a protocol whose states are worth something. What a request costs is paid for by what the
  thread has gained before (`Account.covered`), so over all threads no more is spent than gained,
  whatever the order of their steps.
-/

namespace Meridian.Coop

open Prog

variable {S Req : Type} {Rep : Req → Type} {ε ι Ev σ α β : Type}

/-- What a coroutine may send, and how a request and its reply change that. -/
structure Protocol (Req : Type) (Rep : Req → Type) (ε σ : Type) where
  allows : σ → Req → Prop
  next : σ → (r : Req) → Except ε (Rep r) → σ

/-- From the state `q` of the protocol on the program sends what is allowed, keeps the shared state in
`I`, and ends in `Q`. -/
def Follows (P : Protocol Req Rep ε σ) (I : S → Prop) (Q : Except ε α → σ → Prop) :
    Prog S Rep ε α → σ → Prop
  | .done a, q => Q (.ok a) q
  | .throw e, q => Q (.error e) q
  | .get k, q => ∀ s, I s → Follows P I Q (k s) q
  | .put s k, q => I s ∧ Follows P I Q k q
  | .await r k, q => P.allows q r ∧ ∀ x, Follows P I Q (k x) (P.next q r x)

/-- What a program followed by `f` ends in. -/
def thenFollows (P : Protocol Req Rep ε σ) (I : S → Prop) (f : α → Prog S Rep ε β)
    (Q : Except ε β → σ → Prop) : Except ε α → σ → Prop
  | .ok a, q => Follows P I Q (f a) q
  | .error e, q => Q (.error e) q

/-- What a program guarded by the handler `h` ends in. -/
def catchFollows (P : Protocol Req Rep ε σ) (I : S → Prop) (h : ε → Prog S Rep ε α)
    (Q : Except ε α → σ → Prop) : Except ε α → σ → Prop
  | .ok a, q => Q (.ok a) q
  | .error e, q => Follows P I Q (h e) q

variable {P : Protocol Req Rep ε σ} {I : S → Prop} {Q Q' : Except ε α → σ → Prop} {q : σ}

theorem follows_mono (hQ : ∀ x q, Q x q → Q' x q) :
    ∀ {p : Prog S Rep ε α} {q : σ}, Follows P I Q p q → Follows P I Q' p q := by
  intro p
  induction p with
  | done a => exact fun h => hQ _ _ h
  | throw e => exact fun h => hQ _ _ h
  | get k ih => exact fun h s hs => ih s (h s hs)
  | put s k ih => exact fun h => ⟨h.1, ih h.2⟩
  | await r k ih => exact fun h => ⟨h.1, fun x => ih x (h.2 x)⟩

theorem follows_bind {Q : Except ε β → σ → Prop} {f : α → Prog S Rep ε β} :
    ∀ {p : Prog S Rep ε α} {q : σ},
      Follows P I Q (p.bind f) q ↔ Follows P I (thenFollows P I f Q) p q := by
  intro p
  induction p with
  | done a => exact Iff.rfl
  | throw e => exact Iff.rfl
  | get k ih => exact forall₂_congr fun s _ => ih s
  | put s k ih => exact and_congr_right fun _ => ih
  | await r k ih => exact and_congr_right fun _ => forall_congr' fun x => ih x

theorem follows_attempt {Q : Except ε (Except ε α) → σ → Prop} :
    ∀ {p : Prog S Rep ε α} {q : σ},
      Follows P I Q p.attempt q ↔ Follows P I (fun x => Q (.ok x)) p q := by
  intro p
  induction p with
  | done a => exact Iff.rfl
  | throw e => exact Iff.rfl
  | get k ih => exact forall₂_congr fun s _ => ih s
  | put s k ih => exact and_congr_right fun _ => ih
  | await r k ih => exact and_congr_right fun _ => forall_congr' fun x => ih x

theorem follows_tryCatch {h : ε → Prog S Rep ε α} {p : Prog S Rep ε α} :
    Follows P I Q (p.tryCatch h) q ↔ Follows P I (catchFollows P I h Q) p q := by
  rw [Prog.tryCatch, follows_bind, follows_attempt]
  constructor
  · exact follows_mono fun x q hx => by cases x <;> exact hx
  · exact follows_mono fun x q hx => by cases x <;> exact hx

theorem follows_call (r : Req) {Q : Except ε (Rep r) → σ → Prop} :
    Follows P I Q (call r : Prog S Rep ε (Rep r)) q ↔
      P.allows q r ∧ ∀ x, Q x (P.next q r x) := by
  unfold call
  refine and_congr_right fun _ => forall_congr' fun x => ?_
  cases x <;> exact Iff.rfl

theorem follows_read_bind {Q : Except ε β → σ → Prop} {f : S → Prog S Rep ε β} :
    Follows P I Q ((read : Prog S Rep ε S).bind f) q ↔ ∀ s, I s → Follows P I Q (f s) q :=
  Iff.rfl

/-! ## Programs that obey from every state of the protocol -/

/-- In every state of the protocol the program sends only what is allowed. -/
def Obeys (P : Protocol Req Rep ε σ) (I : S → Prop) (p : Prog S Rep ε α) : Prop :=
  ∀ q, Follows P I (fun _ _ => True) p q

namespace Obeys

variable {p : Prog S Rep ε α} {f : α → Prog S Rep ε β}

theorem done (a : α) : Obeys P I (.done a : Prog S Rep ε α) := fun _ => trivial

theorem bind (hp : Obeys P I p) (hf : ∀ a, Obeys P I (f a)) : Obeys P I (p.bind f) := fun q =>
  follows_bind.mpr (follows_mono (fun x q' _ => by
    cases x with
    | ok a => exact hf a q'
    | error e => trivial) (hp q))

/-- After a read the program may depend on the state. -/
theorem read_bind {f : S → Prog S Rep ε β} (hf : ∀ s, I s → Obeys P I (f s)) :
    Obeys P I (read.bind f) := fun q s hs => hf s hs q

theorem tryCatch {h : ε → Prog S Rep ε α} (hp : Obeys P I p) (hh : ∀ e, Obeys P I (h e)) :
    Obeys P I (p.tryCatch h) := fun q =>
  follows_tryCatch.mpr (follows_mono (fun x q' _ => by
    cases x with
    | ok a => trivial
    | error e => exact hh e q') (hp q))

theorem modify {f : S → S} (hf : ∀ s, I s → I (f s)) :
    Obeys P I (modify f : Prog S Rep ε Unit) := fun _ s hs => ⟨hf s hs, trivial⟩

theorem call {r : Req} (h : ∀ q, P.allows q r) : Obeys P I (call r : Prog S Rep ε (Rep r)) :=
  fun q => (follows_call r).mpr ⟨h q, fun _ => trivial⟩

theorem ofReply (x : Except ε α) : Obeys P I (ofReply x : Prog S Rep ε α) := fun _ => by
  cases x <;> trivial

theorem forEach {f : α → Prog S Rep ε Unit} (hf : ∀ a, Obeys P I (f a)) :
    ∀ l : List α, Obeys P I (forEach l f)
  | [] => done ()
  | a :: l => (hf a).bind fun _ => forEach hf l

theorem collect {f : α → Prog S Rep ε (Option β)} (hf : ∀ a, Obeys P I (f a)) :
    ∀ l : List α, Obeys P I (collect l f)
  | [] => done []
  | a :: l => (hf a).bind fun _ => (collect hf l).bind fun _ => done _

end Obeys

/-! ## Threads -/

/-- From where it stands the thread sends what is allowed. -/
def ThreadFollows (P : Protocol Req Rep ε σ) (I : S → Prop) : Thread S Rep ε → σ → Prop
  | .rest, _ => True
  | .waiting r k, q =>
    P.allows q r ∧ ∀ x, Follows P I (fun _ _ => True) (k x) (P.next q r x)
  | .ready p, q => Follows P I (fun _ _ => True) p q

/-- Up to its next await a program stays where it is in the protocol. -/
theorem settle_follows : ∀ {p : Prog S Rep ε Unit} {s : S},
    Follows P I (fun _ _ => True) p q → I s →
      ThreadFollows P I (settle p s).1 q ∧ I (settle p s).2 := by
  intro p
  induction p with
  | done a => exact fun _ hs => ⟨trivial, hs⟩
  | throw e => exact fun _ hs => ⟨trivial, hs⟩
  | get k ih => exact fun h hs => ih _ (h _ hs) hs
  | put s' k ih => exact fun h _ => ih h.2 h.1
  | await r k ih => exact fun h hs => ⟨h, hs⟩

/-- The shared state is in `I`, and every thread, at its own state of the protocol, sends what is
allowed. -/
structure Obedient (P : Protocol Req Rep ε σ) (I : S → Prop) (x : Cfg S Rep ε ι) (q : ι → σ) :
    Prop where
  shared : I x.shared
  thread : ∀ i, ThreadFollows P I (x.thread i) (q i)

variable [DecidableEq ι] {T : Threads S Rep ε ι Ev} {x x' : Cfg S Rep ε ι} {a : Act ι Ev}
  {qs qs' : ι → σ}

/-- What a step of thread `i` does to it and to its state of the protocol: it comes to its next await or
to its end, or it is replied. -/
inductive Moved (P : Protocol Req Rep ε σ) (t : Thread S Rep ε) (q : σ) : Thread S Rep ε → σ → Prop
  | rests (ht : t.pending = none) {t' : Thread S Rep ε} (ht' : t'.pending = none) : Moved P t q t' q
  | sends (ht : t.pending = none) {t' : Thread S Rep ε} {r : Req} (ht' : t'.pending = some r)
      (hr : P.allows q r) : Moved P t q t' q
  | replied {r : Req} (ht : t.pending = some r) (hr : P.allows q r) (y : Except ε (Rep r))
      {t' : Thread S Rep ε} (ht' : t'.pending = none) : Moved P t q t' (P.next q r y)

theorem moved_settle {t : Thread S Rep ε} (ht : t.pending = none) {t' : Thread S Rep ε}
    (h : ThreadFollows P I t' q) : Moved P t q t' q := by
  cases t' with
  | rest => exact .rests ht rfl
  | waiting r k => exact .sends ht rfl h.1
  | ready p => exact .rests ht rfl

/-- **One step of the threads.** All still obey, and the step is one of one thread or changes no
thread. -/
theorem Obedient.next (hx : Obedient P I x qs) (hbody : ∀ i, Obeys P I (T.body i))
    (hanswer : ∀ r s, I s → I (T.answer r s).2) (henv : ∀ e s s', I s → T.env e s = some s' → I s')
    (h : T.next x a = some x') : ∃ qs', Obedient P I x' qs' ∧
      ((∃ i q' t' s', x' = x.move i t' s' ∧ qs' = Function.update qs i q' ∧
          Moved P (x.thread i) (qs i) t' q') ∨
        x'.thread = x.thread ∧ x'.sent = x.sent ∧ qs' = qs) := by
  have hmove : ∀ {i : ι} {q' : σ} {t' : Thread S Rep ε} {s' : S}, I s' → ThreadFollows P I t' q' →
      Moved P (x.thread i) (qs i) t' q' → ∃ qs', Obedient P I (x.move i t' s') qs' ∧
        ((∃ i₁ q₁ t₁ s₁, x.move i t' s' = x.move i₁ t₁ s₁ ∧ qs' = Function.update qs i₁ q₁ ∧
            Moved P (x.thread i₁) (qs i₁) t₁ q₁) ∨
          (x.move i t' s').thread = x.thread ∧ (x.move i t' s').sent = x.sent ∧ qs' = qs) := by
    intro i q' t' s' hs ht hm
    refine ⟨Function.update qs i q', ⟨hs, fun j => ?_⟩, .inl ⟨i, q', t', s', rfl, rfl, hm⟩⟩
    by_cases hj : j = i
    · subst hj
      rwa [Cfg.move_thread_self, Function.update_self]
    · rw [Cfg.move_thread_of_ne hj, Function.update_of_ne hj]
      exact hx.thread j
  cases Threads.next_cases h with
  | @start i ht hs =>
    obtain ⟨hfollow, hI⟩ := settle_follows (hbody i (qs i)) hx.shared
    exact hmove hI hfollow (moved_settle (by rw [ht]; rfl) hfollow)
  | @serve i r k ht =>
    have hfollow := hx.thread i
    rw [ht] at hfollow
    exact hmove (hanswer r _ hx.shared) (hfollow.2 _) (.replied (by rw [ht]; rfl) hfollow.1 _ rfl)
  | @resume i p ht =>
    have hfollow := hx.thread i
    rw [ht] at hfollow
    obtain ⟨hfollow', hI⟩ := settle_follows hfollow hx.shared
    exact hmove hI hfollow' (moved_settle (by rw [ht]; rfl) hfollow')
  | @env e s he =>
    exact ⟨qs, ⟨henv e _ s hx.shared he, hx.thread⟩, .inr ⟨rfl, rfl, rfl⟩⟩

/-- A request that a step sends is allowed. -/
theorem Moved.sent_allowed {i : ι} {t' : Thread S Rep ε} {q' : σ} {s' : S}
    (hm : Moved P (x.thread i) q t' q') {y : Req × S} (hy : y ∈ (x.move i t' s').sent) :
    y ∈ x.sent ∨ P.allows q y.1 := by
  refine (Cfg.mem_sent_move hy).imp_right fun ⟨hr, _⟩ => ?_
  cases hm with
  | rests ht ht' => exact absurd (ht'.symm.trans hr) nofun
  | sends ht ht' hallow =>
    obtain rfl := Option.some.inj (ht'.symm.trans hr)
    exact hallow
  | replied ht hallow y ht' => exact absurd (ht'.symm.trans hr) nofun

/-! ## Accounts -/

/-- A protocol whose states are worth something: a request gains its sender something and costs it
something, and what is left never grows by itself. -/
structure Account (Req : Type) (Rep : Req → Type) (ε σ : Type) extends Protocol Req Rep ε σ where
  worth : σ → ℕ
  gain : Req → ℕ
  cost : Req → ℕ
  affords : ∀ q r, allows q r → cost r ≤ worth q + gain r
  keeps : ∀ q r y, allows q r → worth (next q r y) + cost r ≤ worth q + gain r

namespace Account

variable {B : Account Req Rep ε σ}

/-- What a thread has left. -/
def credit (B : Account Req Rep ε σ) (t : Thread S Rep ε) (q : σ) : ℕ :=
  match t.pending with
  | some r => B.worth q + B.gain r - B.cost r
  | none => B.worth q

/-- What the requests sent so far have gained. -/
def gained (B : Account Req Rep ε σ) (x : Cfg S Rep ε ι) : ℕ := (x.sent.map fun y => B.gain y.1).sum

/-- What they have cost. -/
def spent (B : Account Req Rep ε σ) (x : Cfg S Rep ε ι) : ℕ := (x.sent.map fun y => B.cost y.1).sum

/-- **A step of a thread** leaves as much as it gains and does not spend. -/
theorem credit_moved {i : ι} {t' : Thread S Rep ε} {q' : σ}
    (hm : Moved B.toProtocol (x.thread i) q t' q') (s' : S) :
    B.credit t' q' + B.spent (x.move i t' s') + B.gained x ≤
      B.credit (x.thread i) q + B.spent x + B.gained (x.move i t' s') := by
  unfold credit gained spent Cfg.move
  cases hm with
  | rests ht ht' =>
    simp only [ht, ht']
    exact le_rfl
  | sends ht ht' hr =>
    have hafford := B.affords q _ hr
    simp only [ht, ht', List.map_cons, List.sum_cons]
    omega
  | replied ht hr y ht' =>
    have hkeep := B.keeps q _ y hr
    simp only [ht, ht']
    omega

/-- No finite number of threads has more than was gained and not spent. -/
def Balanced (B : Account Req Rep ε σ) (x : Cfg S Rep ε ι) (qs : ι → σ) : Prop :=
  ∀ F : Finset ι, ∑ i ∈ F, B.credit (x.thread i) (qs i) + B.spent x ≤ B.gained x

theorem Balanced.move (hx : B.Balanced x qs) {i : ι} {t' : Thread S Rep ε} {q' : σ} {s' : S}
    (hm : Moved B.toProtocol (x.thread i) (qs i) t' q') :
    B.Balanced (x.move i t' s') (Function.update qs i q') := by
  intro F
  have hF := hx (insert i F)
  have hstep := B.credit_moved hm s'
  -- the thread that moved, and the others
  have hsub : ∑ j ∈ F, B.credit ((x.move i t' s').thread j) (Function.update qs i q' j) ≤
      ∑ j ∈ insert i F, B.credit ((x.move i t' s').thread j) (Function.update qs i q' j) :=
    Finset.sum_le_sum_of_subset (Finset.subset_insert i F)
  have hothers : ∑ j ∈ (insert i F).erase i,
      B.credit ((x.move i t' s').thread j) (Function.update qs i q' j) =
        ∑ j ∈ (insert i F).erase i, B.credit (x.thread j) (qs j) :=
    Finset.sum_congr rfl fun j hj => by
      have hne := Finset.ne_of_mem_erase hj
      rw [Cfg.move_thread_of_ne hne, Function.update_of_ne hne]
  rw [← Finset.add_sum_erase _ _ (Finset.mem_insert_self i F), hothers, Cfg.move_thread_self,
    Function.update_self] at hsub
  rw [← Finset.add_sum_erase _ _ (Finset.mem_insert_self i F)] at hF
  omega

omit [DecidableEq ι] in
/-- **No more is spent than gained**, in any order of the threads' steps. -/
theorem Balanced.covered (hx : B.Balanced x qs) : B.spent x ≤ B.gained x := by
  simpa using hx ∅

end Account

end Meridian.Coop
