import Mathlib.Tactic.Common

/-!
# Cooperative coroutines

A coroutine is a program over a state that all coroutines share; it gives up control only where it
awaits a request. Between two awaits it runs alone, so everything another coroutine can do to it
happens at its awaits. An `answer` says what serving a request replies and does to the state.

* `Prog`: the programs, a monad with exceptions (`throw`, `attempt`, `tryCatch`) and loops over
  lists (`forEach`).
* `run`: a program alone, each request served at once.
* `wp`: weakest preconditions under interference. The coroutine relies on what the others do while
  it waits (`Rules.rely`), guarantees what it does itself (`Rules.own`) and what serving its requests
  does (`Rules.guar`), and may send a request only where `Rules.may` allows.
* `Keeps`: an invariant that a program keeps from wherever it starts, with one rule for each way to
  build programs.
* `wp_alone`: without interference `wp` is about `run`.
* `zoom`: a program over a part of a larger state.
-/

namespace Meridian.Coop

variable {S Req : Type} {Rep : Req → Type} {ε α β : Type}

/-- A coroutine over the shared state `S` that awaits requests, may raise an `ε` and returns an
`α`. A reply is the requested value or an exception. -/
inductive Prog (S : Type) {Req : Type} (Rep : Req → Type) (ε α : Type) : Type where
  | done (a : α)
  | throw (e : ε)
  | get (k : S → Prog S Rep ε α)
  | put (s : S) (k : Prog S Rep ε α)
  | await (r : Req) (k : Except ε (Rep r) → Prog S Rep ε α)

/-- What serving a request replies and does to the state. -/
abbrev Answer (S : Type) {Req : Type} (Rep : Req → Type) (ε : Type) : Type :=
  (r : Req) → S → Except ε (Rep r) × S

namespace Prog

/-- Sequential composition. -/
def bind : Prog S Rep ε α → (α → Prog S Rep ε β) → Prog S Rep ε β
  | .done a, f => f a
  | .throw e, _ => .throw e
  | .get k, f => .get fun s => (k s).bind f
  | .put s k, f => .put s (k.bind f)
  | .await r k, f => .await r fun x => (k x).bind f

instance : Monad (Prog S Rep ε) where
  pure := .done
  bind := .bind

/-- A program with what it returns or raises as its value. -/
def attempt : Prog S Rep ε α → Prog S Rep ε (Except ε α)
  | .done a => .done (.ok a)
  | .throw e => .done (.error e)
  | .get k => .get fun s => (k s).attempt
  | .put s k => .put s k.attempt
  | .await r k => .await r fun x => (k x).attempt

/-- The state. -/
def read : Prog S Rep ε S := .get .done

/-- Change the state. -/
def modify (f : S → S) : Prog S Rep ε Unit := .get fun s => .put (f s) (.done ())

/-- A reply, its exception raised. -/
def ofReply : Except ε α → Prog S Rep ε α
  | .ok a => .done a
  | .error e => .throw e

/-- `try: p except: h`. -/
def tryCatch (p : Prog S Rep ε α) (h : ε → Prog S Rep ε α) : Prog S Rep ε α :=
  p.attempt.bind fun
    | .ok a => .done a
    | .error e => h e

/-- `await r`. -/
def call (r : Req) : Prog S Rep ε (Rep r) := .await r ofReply

/-- `for a in l: f(a)`. -/
def forEach : List α → (α → Prog S Rep ε Unit) → Prog S Rep ε Unit
  | [], _ => .done ()
  | a :: l, f => (f a).bind fun _ => forEach l f

/-- `for a in l: x = f(a); if x: out.append(x)`, the list `out`. -/
def collect : List α → (α → Prog S Rep ε (Option β)) → Prog S Rep ε (List β)
  | [], _ => .done []
  | a :: l, f => (f a).bind fun x => (collect l f).bind fun out =>
    .done (match x with
      | some b => b :: out
      | none => out)

/-- A program alone, each request served at once. -/
def run (A : Answer S Rep ε) : Prog S Rep ε α → S → Except ε α × S
  | .done a, s => (.ok a, s)
  | .throw e, s => (.error e, s)
  | .get k, s => (k s).run A s
  | .put s k, _ => k.run A s
  | .await r k, s => (k (A r s).1).run A (A r s).2

end Prog

open Prog

@[simp] theorem pure_eq (a : α) : (pure a : Prog S Rep ε α) = .done a := rfl

@[simp] theorem bind_eq (p : Prog S Rep ε α) (f : α → Prog S Rep ε β) : p >>= f = p.bind f := rfl

/-! ## Running alone -/

variable {A : Answer S Rep ε} {s : S}

theorem run_bind (p : Prog S Rep ε α) (f : α → Prog S Rep ε β) : ∀ s, (p.bind f).run A s =
    match p.run A s with
    | (.ok a, s') => (f a).run A s'
    | (.error e, s') => (.error e, s') := by
  induction p with
  | done a => exact fun _ => rfl
  | throw e => exact fun _ => rfl
  | get k ih => exact fun s => ih s s
  | put s' k ih => exact fun _ => ih s'
  | await r k ih => exact fun s => ih (A r s).1 (A r s).2

theorem run_call (r : Req) (s : S) : (call r : Prog S Rep ε (Rep r)).run A s = A r s := by
  unfold call
  simp only [run]
  generalize A r s = x
  obtain ⟨x, s'⟩ := x
  cases x <;> rfl

theorem run_attempt (p : Prog S Rep ε α) : ∀ s,
    p.attempt.run A s = (.ok (p.run A s).1, (p.run A s).2) := by
  induction p with
  | done a => exact fun _ => rfl
  | throw e => exact fun _ => rfl
  | get k ih => exact fun s => ih s s
  | put s' k ih => exact fun _ => ih s'
  | await r k ih => exact fun s => ih (A r s).1 (A r s).2

/-! ## Weakest preconditions under interference -/

/-- The terms on which a coroutine shares the state: what the others may do while it waits, what it
may do itself, what serving its requests may do, and which requests it may send in which state. -/
structure Rules (S Req : Type) where
  rely : S → S → Prop
  own : S → S → Prop
  guar : S → S → Prop
  may : Req → S → Prop

/-- From `s` the program keeps to the rules and, if it ends, ends in `Q`. A request is served in a
state the others may have changed, and the program resumes in one they may have changed again. -/
def wp (A : Answer S Rep ε) (c : Rules S Req) (Q : Except ε α → S → Prop) :
    Prog S Rep ε α → S → Prop
  | .done a, s => Q (.ok a) s
  | .throw e, s => Q (.error e) s
  | .get k, s => wp A c Q (k s) s
  | .put s' k, s => c.own s s' ∧ wp A c Q k s'
  | .await r k, s => c.may r s ∧ ∀ s1, c.rely s s1 → c.guar s1 (A r s1).2 ∧
      ∀ s2, c.rely (A r s1).2 s2 → wp A c Q (k (A r s1).1) s2

/-- The postcondition of a program followed by `f`. -/
def thenPost (A : Answer S Rep ε) (c : Rules S Req) (f : α → Prog S Rep ε β)
    (Q : Except ε β → S → Prop) : Except ε α → S → Prop
  | .ok a, s => wp A c Q (f a) s
  | .error e, s => Q (.error e) s

/-- The postcondition of a program guarded by the handler `h`. -/
def catchPost (A : Answer S Rep ε) (c : Rules S Req) (h : ε → Prog S Rep ε α)
    (Q : Except ε α → S → Prop) : Except ε α → S → Prop
  | .ok a, s => Q (.ok a) s
  | .error e, s => wp A c Q (h e) s

variable {c : Rules S Req} {Q Q' : Except ε α → S → Prop}

@[simp] theorem wp_done (a : α) : wp A c Q (.done a) s ↔ Q (.ok a) s := Iff.rfl

@[simp] theorem wp_throw (e : ε) : wp A c Q (.throw e) s ↔ Q (.error e) s := Iff.rfl

@[simp] theorem wp_get (k : S → Prog S Rep ε α) : wp A c Q (.get k) s ↔ wp A c Q (k s) s := Iff.rfl

@[simp] theorem wp_put (s' : S) (k : Prog S Rep ε α) :
    wp A c Q (.put s' k) s ↔ c.own s s' ∧ wp A c Q k s' := Iff.rfl

theorem wp_mono (hQ : ∀ x s, Q x s → Q' x s) :
    ∀ {p : Prog S Rep ε α} {s : S}, wp A c Q p s → wp A c Q' p s := by
  intro p
  induction p with
  | done a => exact fun h => hQ _ _ h
  | throw e => exact fun h => hQ _ _ h
  | get k ih => exact fun h => ih _ h
  | put s' k ih => exact fun h => ⟨h.1, ih h.2⟩
  | await r k ih =>
    exact fun h => ⟨h.1, fun s1 h1 => ⟨(h.2 s1 h1).1, fun s2 h2 => ih _ ((h.2 s1 h1).2 s2 h2)⟩⟩

theorem wp_and :
    ∀ {p : Prog S Rep ε α} {s : S}, wp A c Q p s → wp A c Q' p s →
      wp A c (fun x s => Q x s ∧ Q' x s) p s := by
  intro p
  induction p with
  | done a => exact fun h h' => ⟨h, h'⟩
  | throw e => exact fun h h' => ⟨h, h'⟩
  | get k ih => exact fun h h' => ih _ h h'
  | put s' k ih => exact fun h h' => ⟨h.1, ih h.2 h'.2⟩
  | await r k ih =>
    exact fun h h' => ⟨h.1, fun s1 h1 => ⟨(h.2 s1 h1).1, fun s2 h2 =>
      ih _ ((h.2 s1 h1).2 s2 h2) ((h'.2 s1 h1).2 s2 h2)⟩⟩

@[simp] theorem wp_bind {Q : Except ε β → S → Prop} {f : α → Prog S Rep ε β} :
    ∀ {p : Prog S Rep ε α} {s : S},
      wp A c Q (p.bind f) s ↔ wp A c (thenPost A c f Q) p s := by
  intro p
  induction p with
  | done a => exact Iff.rfl
  | throw e => exact Iff.rfl
  | get k ih => exact fun {s} => ih s
  | put s' k ih => exact and_congr_right fun _ => ih
  | await r k ih =>
    exact and_congr_right fun _ => forall₂_congr fun s1 _ => and_congr_right fun _ =>
      forall₂_congr fun s2 _ => ih _

/-- A postcondition of the runs that raise nothing. -/
def onOk (Q : α → S → Prop) : Except ε α → S → Prop
  | .ok a, s => Q a s
  | .error _, _ => True

/-- Partial correctness composes. -/
theorem wp_bind_ok {R : α → S → Prop} {Q : β → S → Prop} {f : α → Prog S Rep ε β}
    {p : Prog S Rep ε α} (hp : wp A c (onOk R) p s)
    (hf : ∀ a s, R a s → wp A c (onOk Q) (f a) s) : wp A c (onOk Q) (p.bind f) s := by
  rw [wp_bind]
  refine wp_mono (fun x s' hx => ?_) hp
  cases x with
  | ok a => exact hf a s' hx
  | error e => trivial

@[simp] theorem wp_attempt {Q : Except ε (Except ε α) → S → Prop} :
    ∀ {p : Prog S Rep ε α} {s : S},
      wp A c Q p.attempt s ↔ wp A c (fun x => Q (.ok x)) p s := by
  intro p
  induction p with
  | done a => exact Iff.rfl
  | throw e => exact Iff.rfl
  | get k ih => exact fun {s} => ih s
  | put s' k ih => exact and_congr_right fun _ => ih
  | await r k ih =>
    exact and_congr_right fun _ => forall₂_congr fun s1 _ => and_congr_right fun _ =>
      forall₂_congr fun s2 _ => ih _

theorem wp_tryCatch {h : ε → Prog S Rep ε α} {p : Prog S Rep ε α} :
    wp A c Q (p.tryCatch h) s ↔ wp A c (catchPost A c h Q) p s := by
  rw [Prog.tryCatch, wp_bind, wp_attempt]
  have hpost : (fun x => thenPost A c (fun
      | .ok a => .done a
      | .error e => h e) Q (.ok x)) = catchPost A c h Q := by
    funext x s
    cases x <;> rfl
  rw [hpost]

@[simp] theorem wp_read {Q : Except ε S → S → Prop} :
    wp A c Q (read : Prog S Rep ε S) s ↔ Q (.ok s) s := Iff.rfl

@[simp] theorem wp_modify {Q : Except ε Unit → S → Prop} {f : S → S} :
    wp A c Q (modify f) s ↔ c.own s (f s) ∧ Q (.ok ()) (f s) := Iff.rfl

theorem wp_ofReply {x : Except ε α} : wp A c Q (ofReply x) s ↔ Q x s := by
  cases x <;> exact Iff.rfl

theorem wp_call (r : Req) {Q : Except ε (Rep r) → S → Prop} :
    wp A c Q (call r) s ↔ c.may r s ∧ ∀ s1, c.rely s s1 → c.guar s1 (A r s1).2 ∧
      ∀ s2, c.rely (A r s1).2 s2 → Q (A r s1).1 s2 := by
  unfold call
  exact and_congr_right fun _ => forall₂_congr fun s1 _ => and_congr_right fun _ =>
    forall₂_congr fun s2 _ => wp_ofReply

/-- The rule of `forEach`: an invariant of the elements still to come, which each round re-establishes
for the rest of the list. -/
theorem wp_forEach {f : α → Prog S Rep ε Unit} {Q : Except ε Unit → S → Prop} (I : List α → S → Prop)
    (hstep : ∀ a l s, I (a :: l) s → wp A c
      (fun x s' => match x with
        | .ok _ => I l s'
        | .error e => Q (.error e) s') (f a) s)
    (hend : ∀ s, I [] s → Q (.ok ()) s) :
    ∀ {l : List α} {s : S}, I l s → wp A c Q (forEach l f) s
  | [], s, h => hend s h
  | a :: l, s, h => by
    rw [forEach, wp_bind]
    refine wp_mono (fun x s' hx => ?_) (hstep a l s h)
    cases x with
    | ok _ => exact wp_forEach I hstep hend hx
    | error e => exact hx

/-- The rule of `collect`: an invariant of the elements still to come and the list so far. -/
theorem wp_collect {f : α → Prog S Rep ε (Option β)} {Q : Except ε (List β) → S → Prop}
    (I : List α → List β → S → Prop)
    (hstep : ∀ a l out s, I (a :: l) out s → wp A c
      (fun x s' => match x with
        | .ok (some b) => I l (out ++ [b]) s'
        | .ok none => I l out s'
        | .error e => Q (.error e) s') (f a) s)
    (hend : ∀ out s, I [] out s → Q (.ok out) s) :
    ∀ {l : List α} {s : S}, I l [] s → wp A c Q (collect l f) s := by
  have hgen : ∀ (l : List α) (out : List β) (s : S), I l out s → wp A c
      (fun x s' => match x with
        | .ok bs => Q (.ok (out ++ bs)) s'
        | .error e => Q (.error e) s') (collect l f) s := by
    intro l
    induction l with
    | nil =>
      intro out s h
      simpa only [collect, wp_done, List.append_nil] using hend out s h
    | cons a l ih =>
      intro out s h
      rw [collect, wp_bind]
      refine wp_mono (fun x s' hx => ?_) (hstep a l out s h)
      match x, hx with
      | .error e, hx => exact hx
      | .ok none, hx =>
        rw [thenPost, wp_bind]
        refine wp_mono (fun y s'' hy => ?_) (ih out s' hx)
        cases y <;> exact hy
      | .ok (some b), hx =>
        rw [thenPost, wp_bind]
        refine wp_mono (fun y s'' hy => ?_) (ih (out ++ [b]) s' hx)
        cases y with
        | error e => exact hy
        | ok bs => simpa only [thenPost, wp_done, List.append_assoc, List.singleton_append] using hy
  intro l s h
  refine wp_mono (fun x s' hx => ?_) (hgen l [] s h)
  cases x <;> exact hx

/-! ## Invariants -/

/-- From any state in `I` the program keeps to the rules and ends in `I`. -/
def Keeps (A : Answer S Rep ε) (c : Rules S Req) (I : S → Prop) (p : Prog S Rep ε α) : Prop :=
  ∀ s, I s → wp A c (fun _ => I) p s

namespace Keeps

theorem onOk {I : S → Prop} {p : Prog S Rep ε α} (h : Keeps A c I p) (hs : I s) :
    wp A c (onOk fun _ => I) p s :=
  wp_mono (fun x _ hx => by cases x with
    | ok a => exact hx
    | error e => trivial) (h s hs)

variable {I : S → Prop} {p : Prog S Rep ε α} {f : α → Prog S Rep ε β}

theorem done (a : α) : Keeps A c I (.done a : Prog S Rep ε α) := fun _ h => h

theorem bind (hp : Keeps A c I p) (hf : ∀ a, Keeps A c I (f a)) : Keeps A c I (p.bind f) := by
  intro s h
  rw [wp_bind]
  refine wp_mono (fun x s' hx => ?_) (hp s h)
  cases x with
  | ok a => exact hf a s' hx
  | error e => exact hx

/-- After a read the program may depend on the state. -/
theorem read_bind {f : S → Prog S Rep ε β} (hf : ∀ s, I s → wp A c (fun _ => I) (f s) s) :
    Keeps A c I (read.bind f) := fun s h => by
  rw [wp_bind, wp_read]
  exact hf s h

theorem tryCatch {h : ε → Prog S Rep ε α} (hp : Keeps A c I p) (hh : ∀ e, Keeps A c I (h e)) :
    Keeps A c I (p.tryCatch h) := by
  intro s hs
  rw [wp_tryCatch]
  refine wp_mono (fun x s' hx => ?_) (hp s hs)
  cases x with
  | ok a => exact hx
  | error e => exact hh e s' hx

theorem modify {f : S → S} (hf : ∀ s, I s → c.own s (f s) ∧ I (f s)) :
    Keeps A c I (modify f : Prog S Rep ε Unit) := hf

theorem forEach {f : α → Prog S Rep ε Unit} {l : List α} (hf : ∀ a ∈ l, Keeps A c I (f a)) :
    Keeps A c I (forEach l f) := fun s h =>
  wp_forEach (fun l' s => (∀ a ∈ l', Keeps A c I (f a)) ∧ I s)
    (fun a l' s ⟨hl, hs⟩ => wp_mono
      (fun x _ hx => by
        cases x with
        | ok _ => exact ⟨fun b hb => hl b (List.mem_cons_of_mem _ hb), hx⟩
        | error e => exact hx)
      (hl a List.mem_cons_self s hs))
    (fun _ h => h.2) ⟨hf, h⟩

theorem collect {f : α → Prog S Rep ε (Option β)} {l : List α} (hf : ∀ a, Keeps A c I (f a)) :
    Keeps A c I (collect l f) := fun _ h =>
  wp_collect (fun _ _ s => I s)
    (fun a _ _ s hs => wp_mono
      (fun x _ hx => match x, hx with
        | .ok (some _), hx => hx
        | .ok none, hx => hx
        | .error _, hx => hx)
      (hf a s hs))
    (fun _ _ h => h) h

/-- A request that may be sent, and whose answer is within the guarantee. -/
theorem call {r : Req} (hI : ∀ {s s'}, c.rely s s' → I s → I s') (hmay : ∀ s, I s → c.may r s)
    (hA : ∀ s, I s → c.guar s (A r s).2 ∧ I (A r s).2) :
    Keeps A c I (call r : Prog S Rep ε (Rep r)) := by
  intro s h
  rw [wp_call r]
  refine ⟨hmay s h, fun s1 h1 => ?_⟩
  obtain ⟨hg, hI1⟩ := hA s1 (hI h1 h)
  exact ⟨hg, fun s2 h2 => hI h2 hI1⟩

end Keeps

/-- Nothing is relied on and nothing is forbidden. -/
def free : Rules S Req where
  rely _ _ := True
  own _ _ := True
  guar _ _ := True
  may _ _ := True

/-- Rules that forbid nothing are kept by every program. -/
theorem wp_lax (hown : ∀ s s', c.own s s') (hguar : ∀ s s', c.guar s s') (hmay : ∀ r s, c.may r s) :
    ∀ (p : Prog S Rep ε α) (s : S), wp A c (fun _ _ => True) p s
  | .done _, _ => trivial
  | .throw _, _ => trivial
  | .get k, s => wp_lax hown hguar hmay (k s) s
  | .put s' k, s => ⟨hown s s', wp_lax hown hguar hmay k s'⟩
  | .await r k, s => ⟨hmay r s, fun s1 _ => ⟨hguar s1 _, fun s2 _ =>
      wp_lax hown hguar hmay (k (A r s1).1) s2⟩⟩

theorem wp_free (p : Prog S Rep ε α) (s : S) : wp A free (fun _ _ => True) p s :=
  wp_lax (fun _ _ => trivial) (fun _ _ => trivial) (fun _ _ => trivial) p s

/-! ## Without interference -/

/-- Nobody else, and nothing is forbidden. -/
def alone : Rules S Req where
  rely := Eq
  own _ _ := True
  guar _ _ := True
  may _ _ := True

/-- Without interference `wp` is about `run`. -/
theorem wp_alone : ∀ {p : Prog S Rep ε α} {s : S},
    wp A alone Q p s ↔ Q (p.run A s).1 (p.run A s).2 := by
  intro p
  induction p with
  | done a => exact Iff.rfl
  | throw e => exact Iff.rfl
  | get k ih => exact fun {s} => ih s
  | put s' k ih => exact (and_iff_right trivial).trans ih
  | await r k ih =>
    intro s
    simp only [wp, alone, true_and, forall_eq']
    exact ih _

theorem wp_call_alone (r : Req) {Q : Except ε (Rep r) → S → Prop} :
    wp A alone Q (call r) s ↔ Q (A r s).1 (A r s).2 := by
  rw [wp_alone, run_call]

/-- A loop of changes to the state. -/
theorem wp_forEach_modify_alone {f : α → S → S} {Q : Except ε Unit → S → Prop} :
    ∀ {l : List α} {s : S},
      wp A alone Q (forEach l fun a => modify (f a)) s ↔ Q (.ok ()) (l.foldl (fun s a => f a s) s)
  | [], _ => Iff.rfl
  | _ :: l, _ => by
    rw [forEach, wp_bind, wp_modify, List.foldl_cons]
    exact (and_iff_right trivial).trans (wp_forEach_modify_alone (l := l))

/-! ## Parts of a larger state -/

/-- A part `S` of a state `T`. -/
structure Lens (S T : Type) where
  get : T → S
  set : T → S → T
  get_set : ∀ t s, get (set t s) = s
  set_get : ∀ t, set t (get t) = t
  set_set : ∀ t s s', set (set t s) s' = set t s'

namespace Prog

variable {T Req' : Type} {Rep' : Req' → Type}

/-- A program over a part of the state, its requests sent under the names `lift` gives them. -/
def zoom (L : Lens S T) (lift : Req → Req') (reply : ∀ r, Rep' (lift r) → Rep r) :
    Prog S Rep ε α → Prog T Rep' ε α
  | .done a => .done a
  | .throw e => .throw e
  | .get k => .get fun t => (k (L.get t)).zoom L lift reply
  | .put s k => .get fun t => .put (L.set t s) (k.zoom L lift reply)
  | .await r k => .await (lift r) fun x => (k (x.map (reply r))).zoom L lift reply

end Prog

/-- A lifted request is served on its part of the state. -/
def Zooms {T Req' : Type} {Rep' : Req' → Type} (L : Lens S T) (lift : Req → Req')
    (reply : ∀ r, Rep' (lift r) → Rep r) (A : Answer S Rep ε) (A' : Answer T Rep' ε) : Prop :=
  ∀ r t, (A' (lift r) t).1.map (reply r) = (A r (L.get t)).1 ∧
    (A' (lift r) t).2 = L.set t (A r (L.get t)).2

/-- A zoomed program does to its part what the program does, and nothing to the rest. -/
theorem run_zoom {T Req' : Type} {Rep' : Req' → Type} {L : Lens S T} {lift : Req → Req'}
    {reply : ∀ r, Rep' (lift r) → Rep r} {A' : Answer T Rep' ε} (hz : Zooms L lift reply A A')
    (p : Prog S Rep ε α) : ∀ t, (p.zoom L lift reply).run A' t =
      ((p.run A (L.get t)).1, L.set t (p.run A (L.get t)).2) := by
  induction p with
  | done a => exact fun t => by simp only [zoom, run, L.set_get]
  | throw e => exact fun t => by simp only [zoom, run, L.set_get]
  | get k ih => exact fun t => ih (L.get t) t
  | put s k ih =>
    intro t
    simp only [zoom, run]
    rw [ih, L.get_set, L.set_set]
  | await r k ih =>
    intro t
    obtain ⟨h1, h2⟩ := hz r t
    simp only [zoom, run]
    rw [h1, h2, ih, L.get_set, L.set_set]

end Meridian.Coop
