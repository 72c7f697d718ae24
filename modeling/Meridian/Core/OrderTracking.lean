import Meridian.Core.OrderCalls
import Meridian.Core.Permits

/-!
# Order tracking under failures

`diff_and_repost` and `cancel_all` of `core/order_manager.py` in live mode, one call after the
other, where any awaited call of the connector, the rate limiter or the database may raise: whether
the next one does is an event of its own, so it is up to the run. A call that raises leaves the
exchange as it was, the exchange gives no id twice and its listing is truthful. Between any two
steps orders may be filled, cancelled or expire there, and others may place orders.

* `Exchange`: its orders, with the history of what it created and cancelled for the order manager;
* `Sound`: what holds between the calls, kept by `_cancel_one` (`keeps_cancel_one`), by
  `_sync_open_orders` (`wp_sync_body`), by `_place_one` (`wp_place_live`) and by `cancel_all`
  (`keeps_cancel_all`), wherever they raise;
* `tracking_survives`: after each call, every order placed that is live is tracked, and none that
  was cancelled is.
-/

namespace Meridian.OrderTracking

open Coop Run

open OrderCalls (Call)

/-- The exchange, and what the run has in store for the order manager's next call of anything. -/
structure Exchange where
  /-- the open orders -/
  live : Orders := .empty
  /-- the ids it has given out -/
  used : List String := []
  /-- History: the ids of the orders it created for the order manager -/
  created : List String := []
  /-- History: the ids for which a `cancel_order` succeeded -/
  cancelled : List String := []
  /-- the next awaited call raises -/
  fails : Bool := false
  /-- the order that the next `create_limit_order` returns -/
  order : Order
  /-- the order manager's next call -/
  call : Call

/-- What an awaited call raises. -/
def raises : Req → Exn
  | .insert_order _ | .update_order_status .. => .database
  | _ => .connector

/-- The exchange confirms the cancellation of an order. -/
def confirm (order_id : String) (s : Sys Exchange) : Sys Exchange :=
  { s with env :=
    { s.env with live := s.env.live.erase order_id, cancelled := order_id :: s.env.cancelled } }

/-- The exchange creates the order that is in store. -/
def create (s : Sys Exchange) : Sys Exchange :=
  { s with env :=
    { s.env with
      live := s.env.live.set s.env.order
      used := s.env.order.id :: s.env.used
      created := s.env.order.id :: s.env.created } }

/-- How a call is served that does not raise. An id that was never given out cannot be created twice
nor cancelled. -/
def serve : Answer (Sys Exchange) Rep Exn
  | .acquire, s | .insert_order _, s | .update_order_status .., s => (.ok (), s)
  | .fetch_open_orders, s => (.ok s.env.live.toList, s)
  | .create_limit_order _ _ _, s =>
    if s.env.order.id ∈ s.env.used then (.error .connector, s) else (.ok s.env.order, create s)
  | .cancel_order order_id, s =>
    if order_id ∈ s.env.used then (.ok (), confirm order_id s) else (.error .connector, s)
  | .cancel_all_orders, s => (.ok (), { s with env := { s.env with live := .empty } })
  | _, s => (.error .connector, s)

/-- How a call is served. -/
def answer : Answer (Sys Exchange) Rep Exn := fun r s =>
  if s.env.fails then (.error (raises r), s) else serve r s

/-- What happens outside the order manager. -/
inductive Ev where
  | call (c : Call)
  | clock (now : ℚ)
  /-- what comes of the next awaited call -/
  | outcome (fails : Bool) (order : Order)
  /-- somebody else places an order -/
  | placed (order : Order)
  /-- an order is filled, cancelled or expires -/
  | gone (id : String)

def Ev.apply : Ev → Sys Exchange → Option (Sys Exchange)
  | .call c, s => some { s with env := { s.env with call := c } }
  | .clock now, s => some { s with clock := now }
  | .outcome fails order, s => some { s with env := { s.env with fails := fails, order := order } }
  | .placed order, s =>
    if order.id ∈ s.env.used then none
    else some { s with env :=
      { s.env with live := s.env.live.set order, used := order.id :: s.env.used } }
  | .gone id, s => some { s with env := { s.env with live := s.env.live.erase id } }

/-- The next call. -/
def body : Co Exchange Unit := do
  let s ← Prog.read
  match s.env.call with
  | .diff_and_repost grid => do
    let _ ← OrderManager.diff_and_repost grid
    pure ()
  | .cancel_all => OrderManager.cancel_all

/-- Calls, one after the other. -/
def calls : Threads (Sys Exchange) Rep Exn Unit Ev where
  answer := answer
  starts _ _ := true
  body _ := body
  env := Ev.apply

abbrev State := Cfg (Sys Exchange) Rep Exn Unit

/-- Before the first call. -/
def boot (s : Sys Exchange) : State := ⟨s, fun _ => .rest, []⟩

/-- A live order manager that has tracked nothing and placed nothing; others may have. -/
structure Fresh (s : Sys Exchange) : Prop where
  dry_run : s.om.dry_run = false
  open_orders : s.om.open_orders = .empty
  created : s.env.created = []
  cancelled : s.env.cancelled = []
  used : ∀ id ∈ s.env.live.keys, id ∈ s.env.used

/-! ## What holds between the calls -/

/-- Every order placed that is live is tracked, and none that was cancelled is tracked or live. -/
structure Sound (s : Sys Exchange) : Prop where
  dry_run : s.om.dry_run = false
  tracked : ∀ id ∈ s.env.created, id ∈ s.env.live.keys → id ∈ s.om.open_orders.keys
  cancelled : ∀ id ∈ s.env.cancelled, id ∉ s.om.open_orders.keys ∧ id ∉ s.env.live.keys
  used : ∀ id, id ∈ s.env.created ∨ id ∈ s.env.cancelled ∨ id ∈ s.env.live.keys → id ∈ s.env.used

/-- Others leave the order manager and its history alone, and new orders have new ids. -/
structure Outside (s s' : Sys Exchange) : Prop where
  om : s'.om = s.om
  created : s'.env.created = s.env.created
  cancelled : s'.env.cancelled = s.env.cancelled
  used : s.env.used ⊆ s'.env.used
  live : ∀ id ∈ s'.env.live.keys, id ∈ s.env.live.keys ∨ id ∉ s.env.used
  live_used : (∀ id ∈ s.env.live.keys, id ∈ s.env.used) → ∀ id ∈ s'.env.live.keys, id ∈ s'.env.used

/-- Anything may be sent and done, while others do no more than that. -/
def among : Rules (Sys Exchange) Req where
  rely := Outside
  own _ _ := True
  guar _ _ := True
  may _ _ := True

variable {s s' s'' : Sys Exchange}

theorem Outside.refl (s : Sys Exchange) : Outside s s :=
  ⟨rfl, rfl, rfl, List.Subset.refl _, fun _ h => .inl h, fun h => h⟩

theorem Outside.trans (h : Outside s s') (h' : Outside s' s'') : Outside s s'' where
  om := h'.om.trans h.om
  created := h'.created.trans h.created
  cancelled := h'.cancelled.trans h.cancelled
  used := List.Subset.trans h.used h'.used
  live id hid := by
    rcases h'.live id hid with hlive | hnew
    · exact h.live id hlive
    · exact .inr fun hused => hnew (h.used hused)
  live_used hlive := h'.live_used (h.live_used hlive)

theorem outside_apply {e : Ev} (h : e.apply s = some s') : Outside s s' := by
  cases e with
  | call c | clock now | outcome fails order =>
    obtain rfl := Option.some.inj h
    exact ⟨rfl, rfl, rfl, List.Subset.refl _, fun _ hid => .inl hid, fun hlive => hlive⟩
  | placed order =>
    obtain ⟨hnew, ⟨⟩⟩ := Option.ite_none_left_eq_some.mp h
    refine ⟨rfl, rfl, rfl, List.subset_cons_self .., fun id hid => ?_, fun hlive id hid => ?_⟩
    · rcases Keyed.mem_keys_set.mp hid with rfl | hid
      · exact .inr hnew
      · exact .inl hid
    · rcases Keyed.mem_keys_set.mp hid with rfl | hid
      · exact List.mem_cons_self
      · exact List.mem_cons_of_mem _ (hlive id hid)
  | gone id =>
    obtain rfl := Option.some.inj h
    have hsub : ∀ k ∈ (s.env.live.erase id).keys, k ∈ s.env.live.keys := fun k hk =>
      (Keyed.mem_keys_erase.mp hk).1
    exact ⟨rfl, rfl, rfl, List.Subset.refl _, fun k hk => .inl (hsub k hk),
      fun hlive k hk => hlive k (hsub k hk)⟩

theorem Sound.outside (h : Sound s) (ho : Outside s s') : Sound s' where
  dry_run := ho.om ▸ h.dry_run
  tracked id hid hlive := by
    rw [ho.created] at hid
    rw [ho.om]
    rcases ho.live id hlive with hold | hnew
    · exact h.tracked id hid hold
    · exact absurd (h.used id (.inl hid)) hnew
  cancelled id hid := by
    rw [ho.cancelled] at hid
    obtain ⟨hopen, hgone⟩ := h.cancelled id hid
    refine ⟨ho.om ▸ hopen, fun hlive => ?_⟩
    rcases ho.live id hlive with hold | hnew
    · exact hgone hold
    · exact hnew (h.used id (.inr (.inl hid)))
  used id hid := by
    rw [ho.created, ho.cancelled] at hid
    rcases hid with hid | hid | hid
    · exact ho.used (h.used id (.inl hid))
    · exact ho.used (h.used id (.inr (.inl hid)))
    · exact ho.live_used (fun k hk => h.used k (.inr (.inr hk))) id hid

theorem closed : among.Closed Sound where
  refl := Outside.refl
  trans := Outside.trans
  stable ho h := h.outside ho

/-! ## One request -/

/-- The requests that leave the exchange as it was. -/
def aside : Req → Bool
  | .acquire | .insert_order _ | .update_order_status .. | .fetch_open_orders => true
  | _ => false

theorem answer_aside {r : Req} (hr : aside r = true) (s : Sys Exchange) : (answer r s).2 = s := by
  unfold answer
  split
  · rfl
  · cases r with
    | acquire | insert_order order | update_order_status order_id status | fetch_open_orders => rfl
    | _ => cases hr

/-- A request that leaves the exchange alone leaves what others leave. -/
theorem keeps_ask_aside {I : Sys Exchange → Prop} (hI : ∀ {s s'}, Outside s s' → I s → I s')
    {r : Req} (hr : aside r = true) : Keeps answer among I (ask r) := by
  refine Keeps.call hI (fun _ _ => trivial) fun s hs => ⟨trivial, ?_⟩
  rw [answer_aside hr]
  exact hs

/-- A cancellation fails, or the order is gone. -/
theorem answer_cancel (order_id : String) (s : Sys Exchange) :
    (∃ e, answer (.cancel_order order_id) s = (.error e, s)) ∨
      order_id ∈ s.env.used ∧ answer (.cancel_order order_id) s = (.ok (), confirm order_id s) := by
  unfold answer
  split
  · exact .inl ⟨_, rfl⟩
  · simp only [serve]
    split
    · rename_i hused
      exact .inr ⟨hused, rfl⟩
    · exact .inl ⟨_, rfl⟩

/-- A creation fails, or there is an order with a new id. -/
theorem answer_create (side : Side) (price amount : ℚ) (s : Sys Exchange) :
    (∃ e, answer (.create_limit_order side price amount) s = (.error e, s)) ∨
      s.env.order.id ∉ s.env.used ∧
        answer (.create_limit_order side price amount) s = (.ok s.env.order, create s) := by
  unfold answer
  split
  · exact .inl ⟨_, rfl⟩
  · simp only [serve]
    split
    · exact .inl ⟨_, rfl⟩
    · rename_i hnew
      exact .inr ⟨hnew, rfl⟩

/-- A listing fails, or it is the live orders. -/
theorem answer_fetch (s : Sys Exchange) :
    (∃ e, answer .fetch_open_orders s = (.error e, s)) ∨
      answer .fetch_open_orders s = (.ok s.env.live.toList, s) := by
  unfold answer
  split
  · exact .inl ⟨_, rfl⟩
  · exact .inr rfl

/-! ## The parts of the calls -/

/-- An order whose cancellation is confirmed, once it is dropped. -/
theorem Sound.untrack {id : String} (h : Sound s) (hused : id ∈ s.env.used)
    (ho : Outside (confirm id s) s') : Sound (s'.mapOm (OrderManager.untrack id)) := by
  have hom : s'.om = s.om := ho.om
  have hcreated : s'.env.created = s.env.created := ho.created
  have hcancelled : ∀ k ∈ s'.env.cancelled, k = id ∨ k ∈ s.env.cancelled := by
    rw [show s'.env.cancelled = id :: s.env.cancelled from ho.cancelled]
    exact fun k hk => List.mem_cons.mp hk
  have hlive : ∀ k ∈ s'.env.live.keys, k ∈ s.env.live.keys ∧ k ≠ id ∨ k ∉ s.env.used := fun k hk =>
    (ho.live k hk).imp_left Keyed.mem_keys_erase.mp
  refine ⟨(congrArg OrderManager.dry_run hom).trans h.dry_run, fun k hk hk' => ?_, fun k hk => ?_,
    fun k hk => ?_⟩
  · have hk : k ∈ s.env.created := hcreated ▸ hk
    rcases hlive k hk' with ⟨hold, hne⟩ | hnew
    · exact Keyed.mem_keys_erase.mpr ⟨hom ▸ h.tracked k hk hold, hne⟩
    · exact absurd (h.used k (.inl hk)) hnew
  · rcases hcancelled k hk with rfl | hk
    · refine ⟨fun hopen => (Keyed.mem_keys_erase.mp hopen).2 rfl, fun hk' => ?_⟩
      rcases hlive k hk' with ⟨-, hne⟩ | hnew
      · exact hne rfl
      · exact hnew hused
    · refine ⟨fun hopen => ?_, fun hk' => ?_⟩
      · have hopen := (Keyed.mem_keys_erase.mp hopen).1
        rw [hom] at hopen
        exact (h.cancelled k hk).1 hopen
      · rcases hlive k hk' with ⟨hold, -⟩ | hnew
        · exact (h.cancelled k hk).2 hold
        · exact hnew (h.used k (.inr (.inl hk)))
  · rcases hk with hk | hk | hk
    · exact ho.used (h.used k (.inl (hcreated ▸ hk)))
    · rcases hcancelled k hk with rfl | hk
      · exact ho.used hused
      · exact ho.used (h.used k (.inr (.inl hk)))
    · exact ho.live_used (fun k hk => h.used k (.inr (.inr (Keyed.mem_keys_erase.mp hk).1))) k hk

/-- **`_cancel_one`** keeps the tracking sound, wherever it raises: an order is untracked only once
the exchange has cancelled it. -/
theorem keeps_cancel_one (order : Order) :
    Keeps answer among Sound (OrderManager.cancel_one order) := by
  have hask {r : Req} (hr : aside r = true) : Keeps answer among Sound (ask r) :=
    keeps_ask_aside (fun ho h => h.outside ho) hr
  unfold OrderManager.cancel_one
  refine (hask rfl).bind fun _ => Keeps.read_bind fun s h => ?_
  rw [if_neg (by simp [h.dry_run]), bind_eq, wp_bind]
  refine (wp_ask _).mpr ⟨trivial, fun s1 h1 => ⟨trivial, fun s2 h2 => ?_⟩⟩
  have hs1 := h.outside h1
  rcases answer_cancel order.id s1 with ⟨e, hx⟩ | ⟨hused, hx⟩
  · rw [hx] at h2 ⊢
    exact hs1.outside h2
  · rw [hx] at h2 ⊢
    rw [thenPost, bind_eq, wp_bind, wp_modify]
    exact ⟨trivial, hask rfl _ (hs1.untrack hused h2)⟩

/-- An order that was created, once it is tracked. -/
theorem Sound.track (h : Sound s) (hnew : s.env.order.id ∉ s.env.used)
    (ho : Outside (create s) s') : Sound (OrderManager.tracking s.env.order s') := by
  have hom : s'.om = s.om := ho.om
  have hcreated : ∀ k ∈ s'.env.created, k = s.env.order.id ∨ k ∈ s.env.created := by
    rw [show s'.env.created = s.env.order.id :: s.env.created from ho.created]
    exact fun k hk => List.mem_cons.mp hk
  have hcancelled : s'.env.cancelled = s.env.cancelled := ho.cancelled
  have hlive : ∀ k ∈ s'.env.live.keys,
      k = s.env.order.id ∨ k ∈ s.env.live.keys ∨ k ∉ s.env.used := by
    intro k hk
    rcases ho.live k hk with hk | hk
    · exact (Keyed.mem_keys_set.mp hk).imp_right .inl
    · exact .inr (.inr fun hused => hk (List.mem_cons_of_mem _ hused))
  refine ⟨(congrArg OrderManager.dry_run hom).trans h.dry_run, fun k hk hk' => ?_, fun k hk => ?_,
    fun k hk => ?_⟩
  · refine Keyed.mem_keys_set.mpr ?_
    rcases hcreated k hk with rfl | hk
    · exact .inl rfl
    · rcases hlive k hk' with rfl | hold | hunused
      · exact .inl rfl
      · exact .inr (hom ▸ h.tracked k hk hold)
      · exact absurd (h.used k (.inl hk)) hunused
  · have hk : k ∈ s.env.cancelled := hcancelled ▸ hk
    have hused := h.used k (.inr (.inl hk))
    have hne : k ≠ s.env.order.id := fun heq => hnew (heq ▸ hused)
    refine ⟨fun hopen => ?_, fun hk' => ?_⟩
    · have hopen := (Keyed.mem_keys_set.mp hopen).resolve_left hne
      rw [hom] at hopen
      exact (h.cancelled k hk).1 hopen
    · rcases (hlive k hk').resolve_left hne with hold | hunused
      · exact (h.cancelled k hk).2 hold
      · exact hunused hused
  · rcases hk with hk | hk | hk
    · rcases hcreated k hk with rfl | hk
      · exact ho.used List.mem_cons_self
      · exact ho.used (List.mem_cons_of_mem _ (h.used k (.inl hk)))
    · exact ho.used (List.mem_cons_of_mem _ (h.used k (.inr (.inl (hcancelled ▸ hk)))))
    · refine ho.live_used (fun k hk => ?_) k hk
      rcases Keyed.mem_keys_set.mp hk with rfl | hk
      · exact List.mem_cons_self
      · exact List.mem_cons_of_mem _ (h.used k (.inr (.inr hk)))

/-- **`_place_one`**, wherever it raises: what is created is tracked before the next await. -/
theorem wp_place_live (level : OrderManager.Level) (h : Sound s) :
    wp answer among (fun _ => Sound)
      (OrderManager.place_live level.1 level.2.1 level.2.2) s := by
  refine Keeps.tryCatch ?_ (fun _ => Keeps.done _) s h
  intro s h
  rw [bind_eq, wp_bind, wp_ask]
  refine ⟨trivial, fun s1 h1 => ⟨trivial, fun s2 h2 => ?_⟩⟩
  have hs1 := h.outside h1
  rcases answer_create level.1 level.2.1 level.2.2 s1 with ⟨e, hx⟩ | ⟨hnew, hx⟩
  · rw [hx] at h2 ⊢
    exact hs1.outside h2
  · rw [hx] at h2 ⊢
    rw [thenPost, bind_eq, wp_bind, wp_modify]
    refine ⟨trivial, ?_⟩
    have hask : Keeps answer among Sound (ask (.insert_order s1.env.order)) :=
      keeps_ask_aside (fun ho h => h.outside ho) rfl
    exact (hask.bind fun _ => Keeps.done _) _ (hs1.track hnew h2)

/-! ## The sync -/

/-- While the cache is brought in line with a listing: what is live of the orders placed is listed,
and nothing listed was cancelled. -/
structure Listed (ids : List String) (s : Sys Exchange) : Prop where
  sound : Sound s
  listed : ∀ id ∈ s.env.created, id ∈ s.env.live.keys → id ∈ ids
  uncancelled : ∀ id ∈ ids, id ∉ s.env.cancelled

theorem Listed.outside {ids : List String} (h : Listed ids s) (ho : Outside s s') :
    Listed ids s' where
  sound := h.sound.outside ho
  listed id hid hlive := by
    rw [ho.created] at hid
    rcases ho.live id hlive with hold | hnew
    · exact h.listed id hid hold
    · exact absurd (h.sound.used id (.inl hid)) hnew
  uncancelled := by
    rw [ho.cancelled]
    exact h.uncancelled

/-- An order that is not listed is dropped. -/
theorem Listed.drop {ids : List String} (h : Listed ids s) {id : String} (hid : id ∉ ids) :
    Listed ids (s.mapOm fun om => { om with open_orders := om.open_orders.erase id }) where
  sound :=
    { dry_run := h.sound.dry_run
      tracked := fun k hk hlive => Keyed.mem_keys_erase.mpr
        ⟨h.sound.tracked k hk hlive, fun heq => hid (heq ▸ h.listed k hk hlive)⟩
      cancelled := fun k hk => ⟨fun hopen =>
        (h.sound.cancelled k hk).1 (Keyed.mem_keys_erase.mp hopen).1, (h.sound.cancelled k hk).2⟩
      used := h.sound.used }
  listed := h.listed
  uncancelled := h.uncancelled

/-- A listed order is adopted. -/
theorem Listed.adopt {ids : List String} (h : Listed ids s) {order : Order} (hid : order.id ∈ ids) :
    Listed ids (s.mapOm fun om => { om with open_orders := om.open_orders.add order }) where
  sound :=
    { dry_run := h.sound.dry_run
      tracked := fun k hk hlive => Keyed.mem_keys_add.mpr (.inl (h.sound.tracked k hk hlive))
      cancelled := fun k hk => by
        refine ⟨fun hopen => ?_, (h.sound.cancelled k hk).2⟩
        rcases Keyed.mem_keys_add.mp hopen with hopen | rfl
        · exact (h.sound.cancelled k hk).1 hopen
        · exact h.uncancelled order.id hid hk
      used := h.sound.used }
  listed := h.listed
  uncancelled := h.uncancelled

/-- **`_sync_open_orders`** keeps the tracking sound, wherever it raises: it takes over what the
exchange lists as live. -/
theorem wp_sync_body (h : Sound s) :
    wp answer among (fun _ => Sound) OrderManager.sync_body s := by
  unfold OrderManager.sync_body
  rw [bind_eq, wp_bind, wp_ask]
  refine ⟨trivial, fun s1 h1 => ⟨trivial, fun s2 h2 => ?_⟩⟩
  have hs1 := h.outside h1
  rcases answer_fetch s1 with ⟨e, hx⟩ | hx
  · rw [hx] at h2 ⊢
    exact hs1.outside h2
  · rw [hx] at h2 ⊢
    set live_map : Orders := .ofList s1.env.live.toList with hmap
    have hkeys : live_map.keys = s1.env.live.keys := OrderCalls.keys_live_map _
    have hlisted : Listed live_map.keys s2 := by
      refine Listed.outside ⟨hs1, fun id _ hlive => hkeys ▸ hlive, fun id hid hcancelled => ?_⟩ h2
      exact (hs1.cancelled id hcancelled).2 (hkeys ▸ hid)
    have hkeep : Keeps answer among (Listed live_map.keys) (do
        let s ← Prog.read
        let gone := s.om.open_orders.keys.filter fun oid => decide (oid ∉ live_map.keys)
        Prog.forEach gone fun oid => do
          OrderManager.del_open_order oid
          ask (.update_order_status oid "filled")
        Prog.forEach live_map.toList fun order => Prog.modify (Sys.mapOm fun om =>
          { om with open_orders := om.open_orders.add order })) := by
      refine Keeps.read_bind fun s hs => ?_
      refine Keeps.bind (Keeps.forEach fun oid hoid => ?_) (fun _ => Keeps.forEach fun order ho =>
        Keeps.modify fun s hs => ⟨trivial, hs.adopt (Keyed.key_mem ho)⟩) s hs
      have hnot : oid ∉ live_map.keys := of_decide_eq_true (List.mem_filter.mp hoid).2
      refine Keeps.bind (Keeps.read_bind fun s hs => ?_) fun _ =>
        keeps_ask_aside (fun ho h => h.outside ho) rfl
      split
      · exact ⟨trivial, hs.drop hnot⟩
      · exact hs
    exact wp_mono (fun _ _ hs => hs.sound) (hkeep s2 hlisted)

/-! ## Cancelling everything -/

/-- Nothing that was placed is live, as `cancel_all` leaves it; the tracking is as sound as before.
-/
structure Cleared (s : Sys Exchange) : Prop where
  sound : Sound s
  gone : ∀ id ∈ s.env.created, id ∉ s.env.live.keys

theorem Cleared.outside (h : Cleared s) (ho : Outside s s') : Cleared s' where
  sound := h.sound.outside ho
  gone id hid hlive := by
    rw [ho.created] at hid
    rcases ho.live id hlive with hold | hnew
    · exact h.gone id hid hold
    · exact hnew (h.sound.used id (.inl hid))

/-- An emptied exchange. -/
theorem Sound.cleared (h : Sound s) :
    Cleared { s with env := { s.env with live := .empty } } where
  sound :=
    { dry_run := h.dry_run
      tracked := fun _ _ hlive => absurd hlive List.not_mem_nil
      cancelled := fun id hid => ⟨(h.cancelled id hid).1, List.not_mem_nil⟩
      used := fun id hid => by
        rcases hid with hid | hid | hid
        · exact h.used id (.inl hid)
        · exact h.used id (.inr (.inl hid))
        · exact absurd hid List.not_mem_nil }
  gone _ _ := List.not_mem_nil

theorem wp_cancel_on_exchange (h : Sound s) :
    wp answer among
      (fun x s' => Sound s' ∧ (x = .ok () → Cleared s')) OrderManager.cancel_on_exchange s := by
  have hask : Keeps answer among Sound (ask .acquire) :=
    keeps_ask_aside (fun ho h => h.outside ho) rfl
  unfold OrderManager.cancel_on_exchange
  rw [bind_eq, wp_bind, wp_read, thenPost, if_neg (by simp [h.dry_run]), bind_eq, wp_bind]
  refine wp_mono (fun x s1 hs1 => ?_) (hask s h)
  cases x with
  | error e => exact ⟨hs1, fun he => absurd he (by simp)⟩
  | ok u =>
    refine (wp_ask _).mpr ⟨trivial, fun s2 h2 => ⟨trivial, fun s3 h3 => ?_⟩⟩
    have hs2 := hs1.outside h2
    unfold answer at h3 ⊢
    split at h3
    · rename_i hfails
      rw [if_pos hfails]
      exact ⟨hs2.outside h3, fun he => absurd he (by simp)⟩
    · rename_i hfails
      have hcleared := hs2.cleared.outside h3
      exact ⟨hcleared.sound, fun _ => hcleared⟩

/-- **`cancel_all`**, wherever it raises: the cache is cleared only once the exchange is. -/
theorem keeps_cancel_all : Keeps answer among Sound OrderManager.cancel_all := by
  intro s h
  unfold OrderManager.cancel_all
  rw [bind_eq, wp_bind]
  refine wp_mono (fun x s1 hs1 => ?_) (wp_cancel_on_exchange h)
  cases x with
  | error e => exact hs1.1
  | ok u =>
    have hcleared : Cleared s1 := hs1.2 rfl
    rw [thenPost, bind_eq, wp_bind, wp_read, thenPost, bind_eq, wp_bind]
    have hrows : Keeps answer among Cleared (Prog.forEach s1.om.open_orders.keys fun order_id =>
        ask (.update_order_status order_id "canceled")) :=
      Keeps.forEach fun _ _ => keeps_ask_aside (fun ho h => h.outside ho) rfl
    refine wp_mono (fun x s2 hs2 => ?_) (hrows s1 hcleared)
    cases x with
    | error e => exact hs2.sound
    | ok u =>
      refine ⟨trivial, hs2.sound.dry_run, fun id hid hlive => ?_, fun id hid => ?_, hs2.sound.used⟩
      · exact absurd hlive (hs2.gone id hid)
      · exact ⟨List.not_mem_nil, (hs2.sound.cancelled id hid).2⟩

/-! ## Whole runs -/

theorem keeps_diff_and_repost (grid : OrderGrid) :
    Keeps answer among Sound (OrderManager.diff_and_repost grid) := by
  have hask : Keeps answer among Sound (ask .acquire) :=
    keeps_ask_aside (fun ho h => h.outside ho) rfl
  refine OrderManager.keeps_diff_and_repost ?_ keeps_cancel_one (fun level => ?_)
    (fun grid s h => ⟨trivial, h.dry_run, h.tracked, h.cancelled, h.used⟩) grid
  · exact OrderManager.keeps_sync_open_orders hask fun s h _ => wp_sync_body h
  · refine OrderManager.keeps_place_one hask level (fun s h hd => ?_) fun s h _ =>
      wp_place_live level h
    exact absurd (h.dry_run.symm.trans hd) Bool.false_ne_true

theorem keeps_body : Keeps answer among Sound body := by
  refine Keeps.read_bind fun s h => ?_
  split
  · rename_i grid _
    exact ((keeps_diff_and_repost grid).bind fun _ => Keeps.done ()) s h
  · exact keeps_cancel_all s h

/-- One step of the calls. -/
theorem ok_step {x x' : State} {a : Act Unit Ev}
    (hx : ThreadOk answer among Sound (x.thread ()) x.shared) (hstep : calls.next x a = some x') :
    ThreadOk answer among Sound (x'.thread ()) x'.shared := by
  have hall : AllOk answer (fun _ : Unit => among) (fun _ => Sound) x := fun _ => hx
  have hrely : a.Guaranteed (fun _ : Unit => among) x.shared x'.shared → ∀ j : Unit,
      a.thread ≠ some j → among.rely x.shared x'.shared := by
    intro _ j hj
    cases a with
    | env e =>
      obtain ⟨s', hs', rfl⟩ := Option.map_eq_some_iff.mp hstep
      exact outside_apply hs'
    | start i | serve i | resume i => exact absurd rfl hj
  exact (AllOk.next (T := calls) hall (fun _ => closed) (fun _ hP _ => keeps_body _ hP) hrely
    hstep).1 ()

theorem Fresh.sound (h : Fresh s) : Sound s where
  dry_run := h.dry_run
  tracked := by
    rw [h.created]
    exact fun _ hid => absurd hid List.not_mem_nil
  cancelled := by
    rw [h.cancelled]
    exact fun _ hid => absurd hid List.not_mem_nil
  used := by
    rw [h.created, h.cancelled]
    rintro id (hid | hid | hid)
    · exact absurd hid List.not_mem_nil
    · exact absurd hid List.not_mem_nil
    · exact h.used id hid

/-- **Order tracking survives failures.** In every run, after each call, whether it returned or
raised: every order placed that is live is tracked, and none whose `cancel_order` succeeded is. -/
theorem tracking_survives {s : Sys Exchange} (hs : Fresh s) {x : State}
    (h : Reaches (Fires calls.next) (fun _ _ => True) (boot s) x)
    (hrest : (x.thread ()).atRest = true) :
    (∀ id ∈ x.shared.env.created, id ∈ x.shared.env.live.keys →
      id ∈ x.shared.om.open_orders.keys) ∧
    ∀ id ∈ x.shared.env.cancelled, id ∉ x.shared.om.open_orders.keys := by
  have hok : ThreadOk answer among Sound (x.thread ()) x.shared :=
    h.inv (I := fun x : State => ThreadOk answer among Sound (x.thread ()) x.shared) hs.sound
      fun _ _ _ hx _ hstep => ok_step hx hstep
  rw [Thread.eq_rest hrest] at hok
  exact ⟨hok.tracked, fun id hid => (hok.cancelled id hid).1⟩

/-! ## A concrete run -/

/-- A live order manager that tracks nothing, about to repost. -/
def idle : Sys Exchange where
  om := { exchange := "kucoin", symbol := "ALKIMI/USDT", dry_run := false }
  bot :=
    { exchange := "kucoin"
      q_switch := { exchange := "kucoin", min_balance_usd := 0, min_balance_token := 0 }
      circuit_breaker := { max_daily_loss_pct := 10, max_drawdown_pct := 10, day_start := 0 }
      has_paper_trader := false }
  paper := { exchange := "kucoin", maker_fee_rate := 0 }
  clock := 0
  uuid4 _ := ""
  env :=
    { order := OrderCalls.buy_order "new" "open", call := .diff_and_repost OrderCalls.one_buy }

theorem fresh_idle : Fresh idle :=
  ⟨rfl, rfl, rfl, rfl, fun _ hid => absurd hid List.not_mem_nil⟩

/-- One order is created, and the database raises on its row. -/
def row_fails : List (Act Unit Ev) :=
  .start () :: (List.replicate 4 [Act.serve (), Act.resume ()]).flatten ++
    [.env (.outcome true idle.env.order), .serve (), .resume ()]

/-- The order is tracked all the same. -/
theorem tracking_survives_row : ∃ x : State, (x.thread ()).atRest = true ∧ x.sent.length = 5 ∧
    "new" ∈ x.shared.env.live.keys ∧ "new" ∈ x.shared.om.open_orders.keys := by
  have h : (play calls.next (fun _ _ => True) (boot idle) row_fails).any (fun x => decide
      ((x.thread ()).atRest = true ∧ x.sent.length = 5 ∧ "new" ∈ x.shared.env.created ∧
        "new" ∈ x.shared.env.live.keys)) = true := by
    decide +kernel
  obtain ⟨x, hx, hp⟩ := (Option.any_eq_true _ _).mp h
  obtain ⟨hrest, hsent, hcreated, hlive⟩ := of_decide_eq_true hp
  have htracked := (tracking_survives fresh_idle (reaches_of_play hx) hrest).1
  exact ⟨x, hrest, hsent, hlive, htracked "new" hcreated hlive⟩

end Meridian.OrderTracking
