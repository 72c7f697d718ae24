import Mathlib.Tactic.Linarith
import Meridian.Core.OrderCalls
import Meridian.Core.Permits

/-!
# The age of tracked orders

`_cancel_stale_by_age` of `core/order_manager.py` (207-227) goes by `_order_created_at`, which
`_place_one`, `_cancel_one` and `cancel_all` keep in step with `_open_orders`; `_sync_open_orders`
(185-205) adopts an order without an entry there, and drops one without dropping its entry.

A state is watched from outside: for each tracked order, since when it has been tracked.

Results:
* `age_out_misses`: an adopted order has no creation time, and never ages out;
* `age_out_covers`: while every snapshot lists exactly the tracked orders, the two maps have the same
  keys in every state of every run, live or dry, and from every such state `_cancel_stale_by_age`
  leaves no order that has been tracked for longer than the maximal age.
-/

namespace Meridian.AgeOut

open Coop Run OrderCalls

/-- The system, and since when each tracked order has been tracked. -/
structure Watched where
  calls : State
  since : Order → Option ℚ

/-- Look at the tracked orders. -/
def watch (since : Order → Option ℚ) (s : Sys Books) (o : Order) : Option ℚ :=
  if o ∈ s.om.open_orders.toList then some ((since o).getD s.clock) else none

def next (x : Watched) (a : Act Unit Ev) : Option Watched :=
  (calls.next x.calls a).map fun c => ⟨c, watch x.since c.shared⟩

/-- Before the first call. -/
def boot (s : Sys Books) : Watched := ⟨OrderCalls.boot s, fun _ => none⟩

/-- `OrderManager.__init__`: nothing is tracked, and nothing was placed. -/
structure Fresh (s : Sys Books) : Prop where
  open_orders : s.om.open_orders = .empty
  order_created_at : s.om.order_created_at = .empty
  ordered : s.ordered = []

/-- The calls are served, and the exchange does not fail. -/
def unfailing : Answer (Sys Books) Rep Exn := fun r s =>
  answer r { s with env := { s.env with outcome := { s.env.outcome with fails := false } } }

/-- Others leave the order manager alone. -/
def among : Rules (Sys Books) Req where
  rely s s' := s'.om = s.om
  own _ _ := True
  guar _ _ := True
  may _ _ := True

/-- The two maps have the same keys, and `_cancel_stale_by_age`, run from here while the exchange
does not fail, leaves no order that has been tracked for longer than the maximal age. -/
structure Covered (x : Watched) : Prop where
  keys : ∀ id, id ∈ x.calls.shared.om.order_created_at.keys ↔ id ∈ x.calls.shared.om.open_orders.keys
  aged : 0 < x.calls.shared.om.max_order_age_seconds →
    wp unfailing among
      (fun _ s => ∀ o ∈ s.om.open_orders, ∀ u ∈ x.since o,
        x.calls.shared.clock - x.calls.shared.om.max_order_age_seconds ≤ u)
      OrderManager.cancel_stale_by_age x.calls.shared

/-- The condition on a request: a snapshot lists exactly the tracked orders, so that it takes no
order over that the two maps do not know, and drops none. -/
def Same : Req → Sys Books → Prop
  | .fetch_open_orders, s => s.env.outcome.fails = false →
    (∀ id ∈ s.env.live.keys, id ∈ s.om.open_orders.keys) ∧
      ∀ id ∈ s.om.open_orders.keys, id ∈ s.env.live.keys
  | _, _ => True

instance (r : Req) (s : Sys Books) : Decidable (Same r s) := by
  unfold Same
  split <;> infer_instance

/-- The condition on a step: each `fetch_open_orders` is answered with the tracked orders. -/
def Meets (x : Watched) (a : Act Unit Ev) : Prop := Serves Same x.calls a

instance (x : Watched) (a : Act Unit Ev) : Decidable (Meets x a) :=
  inferInstanceAs (Decidable (Serves Same x.calls a))

/-! ## What one change keeps -/

/-- The maps have the same keys and every tracked order was placed; the exchange has given out the
ids of the placed ones, and a dry order's creation time is its timestamp. -/
structure Timed (s : Sys Books) : Prop where
  keys : ∀ id, id ∈ s.om.order_created_at.keys ↔ id ∈ s.om.open_orders.keys
  placed : ∀ id ∈ s.om.open_orders.keys, id ∈ s.ordered.map Order.id
  used : s.om.dry_run = false → ∀ id ∈ s.ordered.map Order.id, id ∈ s.env.used
  dry : s.om.dry_run = true → ∀ o ∈ s.om.open_orders, (o.id, o.timestamp) ∈ s.om.order_created_at

/-- The order manager changes: what is tracked was so before with the same creation time, or is
placed now. -/
structure Change (s s' : Sys Books) : Prop where
  clock : s'.clock = s.clock
  dry_run : s'.om.dry_run = s.om.dry_run
  ordered : s.ordered.map Order.id ⊆ s'.ordered.map Order.id
  tracked : ∀ o ∈ s'.om.open_orders, ∀ u, (o.id, u) ∈ s'.om.order_created_at →
    o ∈ s.om.open_orders ∧ (o.id, u) ∈ s.om.order_created_at ∨
      u = s'.clock ∧ (s.om.dry_run = true → o.timestamp = u) ∧
        (s.om.dry_run = false → o.id ∉ s.ordered.map Order.id)

/-- What the order manager may do, and what others may. -/
def rules : Rules (Sys Books) Req where
  rely := Outside
  own s s' := Timed s' ∧ Change s s'
  guar s s' := s'.om = s.om ∧ Timed s'
  may _ _ := True

variable {s s' s'' : Sys Books}

theorem Timed.outside (h : Timed s) (ho : Outside s s') : Timed s' := by
  obtain ⟨hkeys, hplaced, hused, hdry⟩ := h
  constructor
  · rw [ho.om]
    exact hkeys
  · rw [ho.om, ho.ordered]
    exact hplaced
  · rw [ho.om, ho.ordered]
    exact fun hl id hid => ho.used (hused hl id hid)
  · rw [ho.om]
    exact hdry

theorem closed : rules.Closed Timed where
  refl := Outside.refl
  trans := Outside.trans
  stable ho h := h.outside ho

theorem Change.refl (s : Sys Books) : Change s s :=
  ⟨rfl, rfl, List.Subset.refl _, fun _ ho _ hu => Or.inl ⟨ho, hu⟩⟩

theorem Change.trans (h : Change s s') (h' : Change s' s'') : Change s s'' where
  clock := h'.clock.trans h.clock
  dry_run := h'.dry_run.trans h.dry_run
  ordered := List.Subset.trans h.ordered h'.ordered
  tracked o ho u hu := by
    rcases h'.tracked o ho u hu with ⟨ho', hu'⟩ | ⟨hclock, hdry, hlive⟩
    · rcases h.tracked o ho' u hu' with hold | ⟨hclock, hnew⟩
      · exact Or.inl hold
      · exact Or.inr ⟨hclock.trans h'.clock.symm, hnew⟩
    · rw [h.dry_run] at hdry hlive
      exact Or.inr ⟨hclock, hdry, fun hl hid => hlive hl (h.ordered hid)⟩

/-- A change of the order manager's other fields. -/
theorem Timed.same (h : Timed s) (hopen : s'.om.open_orders = s.om.open_orders)
    (hcreated : s'.om.order_created_at = s.om.order_created_at) (hord : s'.ordered = s.ordered)
    (hdry : s'.om.dry_run = s.om.dry_run) (hclock : s'.clock = s.clock)
    (hused : s'.env.used = s.env.used) : Timed s' ∧ Change s s' := by
  obtain ⟨hkeys, hplaced, hu, hd⟩ := h
  refine ⟨⟨?_, ?_, ?_, ?_⟩, hclock, hdry, hord ▸ List.Subset.refl _, fun o ho u hu => Or.inl ?_⟩
  · rwa [hopen, hcreated]
  · rwa [hopen, hord]
  · rwa [hdry, hord, hused]
  · rwa [hdry, hopen, hcreated]
  · rw [hopen] at ho
    rw [hcreated] at hu
    exact ⟨ho, hu⟩

/-- `_order_created_at.pop` and `_open_orders.pop`. -/
theorem Timed.untrack (h : Timed s) (id : String) :
    Timed (s.mapOm (OrderManager.untrack id)) ∧ Change s (s.mapOm (OrderManager.untrack id)) := by
  refine ⟨⟨fun k => ?_, fun k hk => ?_, h.used, fun hd o ho => ?_⟩,
    rfl, rfl, List.Subset.refl _, fun o ho u hu => Or.inl ?_⟩
  · simp only [Sys.mapOm, OrderManager.untrack, Keyed.mem_keys_erase, h.keys k]
  · exact h.placed k (Keyed.mem_keys_erase.mp hk).1
  · obtain ⟨ho, hne⟩ := Keyed.mem_erase.mp ho
    exact Keyed.mem_erase.mpr ⟨h.dry hd o ho, hne⟩
  · exact ⟨(Keyed.mem_erase.mp ho).1, (Keyed.mem_erase.mp hu).1⟩

/-- `clear`, of both maps. -/
theorem Timed.clear (h : Timed s) :
    Timed (s.mapOm OrderManager.clear) ∧ Change s (s.mapOm OrderManager.clear) :=
  ⟨⟨fun _ => Iff.rfl, fun _ hk => absurd hk List.not_mem_nil, h.used,
    fun _ _ ho => absurd ho List.not_mem_nil⟩,
    rfl, rfl, List.Subset.refl _, fun _ ho => absurd ho List.not_mem_nil⟩

/-- An order is tracked. -/
theorem Timed.track (h : Timed s) (order : Order)
    (hlive : s.om.dry_run = false →
      order.id ∉ s.ordered.map Order.id ∧ order.id ∈ s.env.used)
    (hdry : s.om.dry_run = true → order.timestamp = s.clock) :
    Timed (OrderManager.tracking order s) ∧ Change s (OrderManager.tracking order s) := by
  have hopen : (OrderManager.tracking order s).om.open_orders = s.om.open_orders.set order := rfl
  have hcreated : (OrderManager.tracking order s).om.order_created_at =
      s.om.order_created_at.set (order.id, s.clock) := rfl
  have hord : (OrderManager.tracking order s).ordered.map Order.id =
      order.id :: s.ordered.map Order.id := rfl
  constructor
  · constructor
    · intro id
      rw [hopen, hcreated, Keyed.mem_keys_set, Keyed.mem_keys_set, h.keys]
    · intro id hid
      rw [hopen, Keyed.mem_keys_set] at hid
      rw [hord, List.mem_cons]
      exact hid.imp_right (h.placed id)
    · intro hl id hid
      rw [hord, List.mem_cons] at hid
      rcases hid with rfl | hid
      · exact (hlive hl).2
      · exact h.used hl id hid
    · intro hd o ho
      rw [hopen, Keyed.mem_set] at ho
      rw [hcreated, Keyed.mem_set]
      rcases ho with rfl | ⟨ho, hne⟩
      · exact Or.inl (congrArg (Prod.mk o.id) (hdry hd))
      · exact Or.inr ⟨h.dry hd o ho, hne⟩
  · refine ⟨rfl, rfl, hord ▸ List.subset_cons_self .., fun o ho u hu => ?_⟩
    rw [hopen, Keyed.mem_set] at ho
    rw [hcreated, Keyed.mem_set, Prod.mk.injEq] at hu
    rcases ho with rfl | ⟨ho, hne⟩
    · rcases hu with ⟨-, rfl⟩ | ⟨-, hne⟩
      · exact Or.inr ⟨rfl, hdry, fun hl => (hlive hl).1⟩
      · exact absurd rfl hne
    · rcases hu with ⟨he, -⟩ | ⟨hu, -⟩
      · exact absurd he hne
      · exact Or.inl ⟨ho, hu⟩

/-! ## What one call keeps -/

/-- The way the requests are served under the condition. -/
abbrev served : Answer (Sys Books) Rep Exn := guarded Same

theorem om_answer (r : Req) (s : Sys Books) : (answer r s).2.om = s.om := by
  cases r with
  | fetch_open_orders | cancel_order order_id | cancel_all_orders =>
    simp only [answer]
    split <;> rfl
  | _ => rfl

theorem om_served (r : Req) (s : Sys Books) : (served r s).2.om = s.om := by
  by_cases h : Same r s
  · exact (congrArg (fun x => x.2.om) (guarded_of_ok h)).trans (om_answer r s)
  · exact congrArg (fun x => x.2.om) (guarded_of_not h)

theorem timed_served (h : Timed s) (r : Req) : Timed (served r s).2 := by
  cases hr : writes r with
  | false => exact h.outside (outside_guarded hr s)
  | true =>
    cases r with
    | insert_order order =>
      have hserved : served (.insert_order order) s = _ := guarded_of_ok trivial
      rw [hserved]
      exact (show Timed _ ∧ Change s (answer (.insert_order order) s).2 from
        h.same rfl rfl rfl rfl rfl rfl).1
    | update_order_status order_id status =>
      have hserved : served (.update_order_status order_id status) s = _ := guarded_of_ok trivial
      rw [hserved]
      exact (show Timed _ ∧ Change s (answer (.update_order_status order_id status) s).2 from
        h.same rfl rfl rfl rfl rfl rfl).1
    | _ => cases hr

theorem keeps_ask (r : Req) : Keeps served rules Timed (ask r) :=
  Keeps.call (fun ho h => h.outside ho) (fun _ _ => trivial)
    fun s h => ⟨⟨om_served r s, timed_served h r⟩, timed_served h r⟩

/-- **`_sync_open_orders`** finds nothing to do, as the snapshot has the tracked orders and no
others. -/
theorem wp_sync_body (h : Timed s) : wp served rules (fun _ => Timed) OrderManager.sync_body s := by
  unfold OrderManager.sync_body
  rw [bind_eq, wp_bind, wp_ask]
  refine ⟨trivial, fun s1 h1 => ⟨⟨om_served _ s1, timed_served (h.outside h1) _⟩,
    fun s2 h2 => ?_⟩⟩
  have ht2 := (timed_served (h.outside h1) .fetch_open_orders).outside h2
  rcases guarded_fetch Same s1 with hx | ⟨hx, hsame, hf⟩
  · change served .fetch_open_orders s1 = _ at hx
    rw [hx]
    exact ht2
  · change served .fetch_open_orders s1 = _ at hx
    rw [hx] at h2 ⊢
    obtain ⟨hlisted, htracked⟩ := hsame hf
    have hgone : s2.om.open_orders.keys.filter (fun oid =>
        decide (oid ∉ (Keyed.ofList s1.env.live.toList : Orders).keys)) = [] := by
      rw [List.filter_eq_nil_iff, keys_live_map, h2.om]
      intro id hid hn
      exact of_decide_eq_true hn (htracked id hid)
    simp only [thenPost, bind_eq, wp_bind, wp_read, hgone]
    have hown : rules.own s2 s2 := ⟨ht2, Change.refl s2⟩
    refine wp_add_tracked hown ht2 fun order ho => ?_
    have hin : order.id ∈ (Keyed.ofList s1.env.live.toList : Orders).keys := Keyed.key_mem ho
    rw [keys_live_map] at hin
    rw [h2.om]
    exact hlisted _ hin

/-- **`_place_one`** in live mode: the new order's id is new. -/
theorem wp_place_live (h : Timed s) (level : OrderManager.Level) (hl : s.om.dry_run = false) :
    wp served rules (fun _ => Timed)
      (OrderManager.place_live level.1 level.2.1 level.2.2) s := by
  unfold OrderManager.place_live
  rw [wp_tryCatch, bind_eq, wp_bind, wp_ask]
  refine ⟨trivial, fun s1 h1 => ⟨⟨om_served _ s1, timed_served (h.outside h1) _⟩,
    fun s2 h2 => ?_⟩⟩
  have ht1 := h.outside h1
  have ht2 := (timed_served ht1 (.create_limit_order level.1 level.2.1 level.2.2)).outside h2
  rcases guarded_create Same level.1 level.2.1 level.2.2 s1 with hx | ⟨hx, -, -, hunused⟩
  · change served (.create_limit_order ..) s1 = _ at hx
    rw [hx]
    exact ht2
  · change served (.create_limit_order ..) s1 = _ at hx
    rw [hx] at h2 ⊢
    have hom : s2.om.dry_run = false := by
      rw [h2.om]
      exact (congrArg OrderManager.dry_run h1.om).trans hl
    -- the exchange had not given out the id, and all that was placed has an id of its
    have hnew : s1.env.outcome.order.id ∉ s2.ordered.map Order.id := fun hid => by
      rw [h2.ordered] at hid
      exact hunused (ht1.used (h1.om ▸ hl) _ hid)
    have hused := h2.used (List.mem_cons_self (l := s1.env.used))
    obtain ⟨htimed, hchange⟩ := ht2.track s1.env.outcome.order (fun _ => ⟨hnew, hused⟩)
      fun hd => absurd (hom.symm.trans hd) Bool.false_ne_true
    simp only [thenPost, bind_eq, wp_bind, wp_modify]
    refine ⟨⟨htimed, hchange⟩, ?_⟩
    refine wp_mono (fun x s' hx => ?_) (keeps_ask _ _ htimed)
    cases x <;> exact hx

/-- The rules permit all that the order manager does. -/
theorem permits : OrderManager.Permits served rules Timed fun _ => true where
  call r _ := keeps_ask r
  untrack id _ h := ⟨h.untrack id, (h.untrack id).1⟩
  clear _ h := ⟨h.clear, h.clear.1⟩
  last_grid grid s h := by
    have hsame : Timed _ ∧ Change s (s.mapOm fun om => { om with last_grid := some grid }) :=
      h.same rfl rfl rfl rfl rfl rfl
    exact ⟨hsame, hsame.1⟩
  dry s side price amount h hd _ _ := by
    have hdraw : Timed s.drawId.2 ∧ Change s s.drawId.2 := h.same rfl rfl rfl rfl rfl rfl
    obtain ⟨htimed, hchange⟩ := hdraw.1.track
      (s.om.fake_order ("DRY-" ++ s.drawId.1) s.clock side price amount)
      (fun hl => by cases hd.symm.trans hl) fun _ => rfl
    exact ⟨⟨htimed, hdraw.2.trans hchange⟩, htimed⟩
  sync _ h _ := wp_sync_body h
  live _ level h hl _ := wp_place_live h level hl

theorem keeps_body : Keeps served rules Timed body :=
  OrderCalls.keeps_body (permits.diff_and_repost fun _ _ => rfl)
    (permits.cancel_all (fun _ _ => rfl) fun _ _ => rfl)

/-! ## What every run keeps -/

/-- A tracked order has been tracked since its creation time. -/
structure Since (since : Order → Option ℚ) (s : Sys Books) : Prop where
  tracked : ∀ o ∈ s.om.open_orders, ∃ u, since o = some u ∧ (o.id, u) ∈ s.om.order_created_at
  others : ∀ o, o ∉ s.om.open_orders → since o = none

/-- The calls keep to their rules, and a tracked order has been tracked since its creation time. -/
structure Inv (x : Watched) : Prop where
  thread : ThreadOk served rules Timed (x.calls.thread ()) x.calls.shared
  timed : Timed x.calls.shared
  since : Since x.since x.calls.shared

theorem inv_boot (h : Fresh s) : Inv (boot s) := by
  have htimed : Timed s := by
    constructor
    · rw [h.open_orders, h.order_created_at]
      exact fun _ => Iff.rfl
    · rw [h.open_orders]
      exact fun _ hid => absurd hid List.not_mem_nil
    · rw [h.ordered]
      exact fun _ _ hid => absurd hid List.not_mem_nil
    · rw [h.open_orders]
      exact fun _ _ ho => absurd ho List.not_mem_nil
  refine ⟨htimed, htimed, fun o ho => ?_, fun _ _ => rfl⟩
  change o ∈ s.om.open_orders at ho
  rw [h.open_orders] at ho
  exact absurd ho List.not_mem_nil

/-- A stretch of changes between two awaits. -/
theorem change_of_chain (h : Relation.ReflTransGen rules.own s s') (hs : Timed s) :
    Timed s' ∧ Change s s' := by
  induction h with
  | refl => exact ⟨hs, Change.refl s⟩
  | tail _ hstep ih => exact ⟨hstep.1, ih.2.trans hstep.2⟩

/-- Two creation times of one order are the same. -/
theorem created_unique {created : CreatedAt} {id : String} {u u' : ℚ} (h : (id, u) ∈ created)
    (h' : (id, u') ∈ created) : u = u' :=
  congrArg Prod.snd (Keyed.eq_of_key h h' rfl)

theorem watch_of_not_mem {since : Order → Option ℚ} {o : Order} (h : o ∉ s.om.open_orders) :
    watch since s o = none := if_neg h

/-- What is watched stays right over a change of the order manager. -/
theorem Since.change {since : Order → Option ℚ} (h : Since since s) (ht : Timed s) (ht' : Timed s')
    (hc : Change s s') : Since (watch since s') s' := by
  refine ⟨fun o ho => ?_, fun o ho => watch_of_not_mem ho⟩
  obtain ⟨⟨id, u⟩, hp, hkey⟩ := Keyed.mem_keys.mp ((ht'.keys o.id).mpr (Keyed.key_mem ho))
  change id = o.id at hkey
  subst hkey
  refine ⟨u, (if_pos ho).trans (congrArg some ?_), hp⟩
  by_cases hold : o ∈ s.om.open_orders
  · -- it was tracked: since its creation time, which has not changed
    obtain ⟨v, hv, hcreated⟩ := h.tracked o hold
    rw [hv, Option.getD_some]
    rcases hc.tracked o ho u hp with ⟨-, hu⟩ | ⟨-, hdry, hlive⟩
    · exact created_unique hcreated hu
    · cases hmode : s.om.dry_run with
      | true => exact (created_unique hcreated (ht.dry hmode o hold)).trans (hdry hmode)
      | false => exact absurd (ht.placed _ (Keyed.key_mem hold)) (hlive hmode)
  · rw [h.others o hold, Option.getD_none]
    rcases hc.tracked o ho u hp with ⟨hold', -⟩ | ⟨hclock, -⟩
    · exact absurd hold' hold
    · exact hclock.symm

/-- The order manager is left alone. -/
theorem Since.same {since : Order → Option ℚ} (h : Since since s) (hom : s'.om = s.om) :
    Since (watch since s') s' := by
  refine ⟨fun o ho => ?_, fun o ho => watch_of_not_mem ho⟩
  have hold := ho
  rw [hom] at hold ⊢
  obtain ⟨u, hu, hcreated⟩ := h.tracked o hold
  refine ⟨u, (if_pos ho).trans ?_, hcreated⟩
  rw [hu]
  rfl

/-- **One step** that meets the condition keeps the invariant: a served request by the rules of the
exchange, a step of the coroutine by its own. -/
theorem inv_step {x x' : Watched} {a : Act Unit Ev} (h : Inv x) (hc : Meets x a)
    (hs : next x a = some x') : Inv x' := by
  obtain ⟨c, hcalls, rfl⟩ := Option.map_eq_some_iff.mp hs
  obtain ⟨hthread, hguar⟩ := ok_step closed (fun _ _ ho => ho) keeps_body h.thread hc hcalls
  cases a with
  | start i | resume i =>
    obtain ⟨htimed, hchange⟩ := change_of_chain hguar h.timed
    exact ⟨hthread, htimed, h.since.change h.timed htimed hchange⟩
  | serve i => exact ⟨hthread, hguar.2, h.since.same hguar.1⟩
  | env e =>
    obtain ⟨s', hs', rfl⟩ := Option.map_eq_some_iff.mp hcalls
    have ho := outside_apply hs'
    exact ⟨hthread, h.timed.outside ho, h.since.same ho.om⟩

/-! ## Ageing out -/

/-- `_cancel_one`, the exchange not failing. -/
theorem wp_cancel_one (order : Order) (s : Sys Books) :
    wp unfailing among
      (fun r s' => r = .ok () ∧ s'.om = OrderManager.untrack order.id s.om)
      (OrderManager.cancel_one order) s := by
  have hpop : ∀ s' : Sys Books, s'.om = s.om → wp unfailing among
      (fun r s' => r = .ok () ∧ s'.om = OrderManager.untrack order.id s.om)
      (do
        Prog.modify (Sys.mapOm (OrderManager.untrack order.id))
        ask (.update_order_status order.id "canceled")) s' := by
    intro s' hom
    rw [bind_eq, wp_bind, wp_modify]
    refine ⟨trivial, (wp_ask _).mpr ⟨trivial, fun s1 h1 => ⟨trivial, fun s2 h2 => ⟨rfl, ?_⟩⟩⟩⟩
    exact h2.trans (h1.trans (congrArg (OrderManager.untrack order.id) hom))
  unfold OrderManager.cancel_one
  rw [bind_eq, wp_bind]
  refine (wp_ask _).mpr ⟨trivial, fun s1 h1 => ⟨trivial, fun s2 h2 => ?_⟩⟩
  have hom : s2.om = s.om := h2.trans h1
  change wp unfailing among _ (Prog.read.bind _) s2
  rw [wp_bind, wp_read]
  dsimp only [thenPost]
  split
  · exact hpop s2 hom
  · rw [bind_eq, wp_bind]
    refine (wp_ask _).mpr ⟨trivial, fun s3 h3 => ⟨trivial, fun s4 h4 => ?_⟩⟩
    exact hpop s4 (h4.trans (h3.trans hom))

/-- The invariant of the loop over the orders that are too old: nothing is added, and those that are
still to be cancelled are in `left`. -/
def Ageing (s : Sys Books) (stale left : List String) (s' : Sys Books) : Prop :=
  ∀ o ∈ s'.om.open_orders, o ∈ s.om.open_orders ∧ (o.id ∈ stale → o.id ∈ left)

theorem wp_cancel_aged {stale left : List String} {oid : String}
    (h : Ageing s stale (oid :: left) s') :
    wp unfailing among (fun r s'' => r = .ok () ∧ Ageing s stale left s'')
      (OrderManager.cancel_aged oid) s' := by
  have hleft : ∀ o ∈ s'.om.open_orders, o.id ≠ oid →
      o ∈ s.om.open_orders ∧ (o.id ∈ stale → o.id ∈ left) := fun o ho hne =>
    ⟨(h o ho).1, fun hid => (List.mem_cons.mp ((h o ho).2 hid)).resolve_left hne⟩
  unfold OrderManager.cancel_aged
  rw [bind_eq, wp_bind, wp_read]
  dsimp only [thenPost]
  split
  · rename_i order hfind
    obtain ⟨-, rfl⟩ := Keyed.find?_eq_some.mp hfind
    refine wp_mono (fun r s'' hr => ⟨hr.1, fun o ho => ?_⟩) (wp_cancel_one order s')
    rw [hr.2] at ho
    obtain ⟨ho, hne⟩ := Keyed.mem_erase.mp ho
    exact hleft o ho hne
  · rename_i hfind
    refine ⟨rfl, fun o ho => hleft o ho fun he => ?_⟩
    exact Keyed.find?_eq_none.mp hfind (he ▸ Keyed.key_mem ho)

/-- **`_cancel_stale_by_age`** leaves none of the orders it has picked. -/
theorem wp_cancel_stale_by_age (hm : 0 < s.om.max_order_age_seconds) :
    wp unfailing among (fun _ => Ageing s (s.om.stale_ids s.clock) [])
      OrderManager.cancel_stale_by_age s := by
  unfold OrderManager.cancel_stale_by_age
  rw [bind_eq, wp_bind, wp_read]
  dsimp only [thenPost]
  rw [if_neg (not_le.mpr hm)]
  refine wp_forEach (Ageing s (s.om.stale_ids s.clock)) (fun oid left s' h => ?_) (fun _ h => h)
    fun o ho => ⟨ho, id⟩
  refine wp_mono (fun r s'' hr => ?_) (wp_cancel_aged h)
  rw [hr.1]
  exact hr.2

/-- An order that is not picked is not too old. -/
theorem Since.young {since : Order → Option ℚ} (h : Since since s) {o : Order}
    (ho : o ∈ s.om.open_orders) (hn : o.id ∉ s.om.stale_ids s.clock) {u : ℚ} (hu : u ∈ since o) :
    s.clock - s.om.max_order_age_seconds ≤ u := by
  obtain ⟨v, hv, hcreated⟩ := h.tracked o ho
  obtain rfl := Option.some.inj (hv.symm.trans hu)
  by_contra hold
  refine hn (List.mem_map.mpr ⟨(o.id, v), List.mem_filter.mpr ⟨hcreated, decide_eq_true ?_⟩, rfl⟩)
  exact ⟨by dsimp only; linarith, Keyed.key_mem ho⟩

/-- No order that has been tracked for longer than the maximal age is left. -/
theorem Inv.aged {x : Watched} (h : Inv x) (hm : 0 < x.calls.shared.om.max_order_age_seconds) :
    wp unfailing among
      (fun _ s => ∀ o ∈ s.om.open_orders, ∀ u ∈ x.since o,
        x.calls.shared.clock - x.calls.shared.om.max_order_age_seconds ≤ u)
      OrderManager.cancel_stale_by_age x.calls.shared :=
  wp_mono (fun _ _ hs o ho _ hu =>
    h.since.young (hs o ho).1 (fun hid => absurd ((hs o ho).2 hid) List.not_mem_nil) hu)
    (wp_cancel_stale_by_age hm)

/-- **Age-out covers every tracked order**, in every state of every run in which the snapshots list
the tracked orders and no others: each has its placement time, and `_cancel_stale_by_age`, if the
exchange does not fail, leaves none that has been tracked for longer than the maximal age. -/
theorem age_out_covers {s : Sys Books} (hs : Fresh s) {x : Watched}
    (h : Reaches (Fires next) Meets (boot s) x) : Covered x := by
  have hinv : Inv x := h.inv (inv_boot hs) fun _ _ _ hi hc hs => inv_step hi hc hs
  exact ⟨hinv.timed.keys, hinv.aged⟩

/-! ## Two runs -/

theorem fresh_holding_nil : Fresh (holding []) := ⟨rfl, rfl, rfl⟩

/-- The first order is placed, at the time 5. -/
theorem age_out_covers_placed : ∃ x : Watched,
    x.calls.shared.om.order_created_at.toList = [("new", 5)] ∧ Covered x := by
  have h : (play next Meets (boot (holding [])) (.env (.clock 5) :: .start () :: turns 5)).any
      (fun x => decide (x.calls.shared.om.order_created_at.toList = [("new", 5)])) = true := by
    decide +kernel
  obtain ⟨x, hx, hcreated⟩ := (Option.any_eq_true _ _).mp h
  exact ⟨x, of_decide_eq_true hcreated, age_out_covers fresh_holding_nil (reaches_of_play hx)⟩

/-- **An adopted order has no creation time**: an order that was there before the start is tracked,
and `_cancel_stale_by_age` never picks it. -/
theorem age_out_misses :
    ¬∀ (s : Sys Books) (x : Watched), Fresh s →
      Reaches (Fires next) (fun _ _ => True) (boot s) x → Covered x := by
  intro hall
  have h : (play next (fun _ _ => True) (boot (holding []))
      (.env (.placed (buy_order "old" "open")) :: .start () :: turns 2)).any (fun x => decide
        (x.calls.shared.om.open_orders.keys = ["old"] ∧
          x.calls.shared.om.order_created_at.keys = [])) = true := by
    decide +kernel
  obtain ⟨x, hx, hp⟩ := (Option.any_eq_true _ _).mp h
  obtain ⟨hopen, hcreated⟩ := of_decide_eq_true hp
  have hkeys := (hall _ x fresh_holding_nil (reaches_of_play hx)).keys "old"
  rw [hopen, hcreated] at hkeys
  exact absurd (hkeys.mpr (List.mem_singleton_self _)) List.not_mem_nil

end Meridian.AgeOut
