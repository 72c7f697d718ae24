import Mathlib.Tactic.NormNum
import Meridian.Core.OrderManager
import Meridian.Core.Venue
import Meridian.Lib.Matching

/-!
# What a `diff_and_repost` that raises nothing leaves behind

The calls of `diff_and_repost` run alone, in an environment in which every one of them succeeds
(`Smooth`). The orders left after the sync and the ageing are `heldOver`, a function of the state
before; from then on the method keeps those near some listed price (`kept`) and places an order for
every positive level that has none near it.

Results:
* `diff_and_repost_spec`: the open orders afterwards are the kept ones followed by the placed ones,
  one made for each positive level with none near;
* `realised_iff`: open orders and positive levels correspond one-to-one iff the kept orders and the
  positive levels that have an order near already do.
-/

namespace Meridian.OrderManager

open Coop

variable {E : Type}

/-! ## An environment in which every call succeeds -/

/-- `s'` is `s` some calls later, the order manager now being `om`. -/
structure Reached (used : E → List String) (s : Sys E) (om : OrderManager) (s' : Sys E) : Prop where
  om : s'.om = om
  drawn : s'.drawn = s.drawn
  used : ∀ id ∈ used s.env, id ∈ used s'.env

/-- Every call succeeds and leaves the order manager alone, the exchange lists `view` and creates
each order under an id it has not used. -/
structure Smooth (A : Answer (Sys E) Rep Exn) (view : E → List Order) (used : E → List String) :
    Prop where
  ok : ∀ r s, placing r = true → ∃ v, (A r s).1 = .ok v
  reached : ∀ r s, Reached used s s.om (A r s).2
  acquire : ∀ s, view (A .acquire s).2.env = view s.env
  fetch : ∀ s, (A .fetch_open_orders s).1 = .ok (view s.env)
  create : ∀ side price amount s, ∃ o, (A (.create_limit_order side price amount) s).1 = .ok o ∧
    o.id ∉ used s.env ∧ o.id ∈ used (A (.create_limit_order side price amount) s).2.env

variable {A : Answer (Sys E) Rep Exn} {view : E → List Order} {used : E → List String}
  {s s' s'' : Sys E} {om : OrderManager}

theorem Reached.refl (s : Sys E) : Reached used s s.om s := ⟨rfl, rfl, fun _ h => h⟩

theorem Reached.trans (h : Reached used s om s') {om' : OrderManager}
    (h' : Reached used s' om' s'') : Reached used s om' s'' :=
  ⟨h'.om, h'.drawn.trans h.drawn, fun id hi => h'.used id (h.used id hi)⟩

/-- A change of the order manager in between. -/
theorem Reached.mapOm (h : Reached used s om s') (f : OrderManager → OrderManager) :
    Reached used s (f om) (s'.mapOm f) :=
  ⟨congrArg f h.om, h.drawn, h.used⟩

/-- One call that succeeds. -/
theorem Smooth.wp_ask (hA : Smooth A view used) {r : Req} {Q : Except Exn (Rep r) → Sys E → Prop}
    (hr : placing r = true) (hQ : ∀ v s', Reached used s s.om s' → Q (.ok v) s') :
    wp A alone Q (ask r) s := by
  rw [wp_ask_alone]
  obtain ⟨v, hv⟩ := hA.ok r s hr
  rw [hv]
  exact hQ v _ (hA.reached r s)

/-! ## The sync -/

/-- `_open_orders` after a sync: the tracked orders that are live, then the live orders that were
not tracked. -/
def synced (tracked : Orders) (live : List Order) : List Order :=
  let live_map : Orders := .ofList live
  tracked.toList.filter (fun o => decide (o.id ∈ live_map.keys)) ++
    live_map.toList.filter fun o => decide (o.id ∉ tracked.keys)

/-- Dropping tracked orders one by one, each with its row updated. -/
theorem Smooth.wp_drop_each (hA : Smooth A view used) {Q : Except Exn Unit → Sys E → Prop} :
    ∀ {l : List String} {s : Sys E}, l.Nodup → (∀ id ∈ l, id ∈ s.om.open_orders.keys) →
      (∀ s', Reached used s { s.om with open_orders := l.foldl Keyed.erase s.om.open_orders } s' →
        Q (.ok ()) s') →
      wp A alone Q (Prog.forEach l fun oid => do
        del_open_order oid
        ask (.update_order_status oid "filled")) s
  | [], s, _, _, hQ => hQ s (Reached.refl s)
  | oid :: l, s, hn, hk, hQ => by
    obtain ⟨hne, hn⟩ := List.nodup_cons.mp hn
    rw [Prog.forEach, wp_bind]
    simp only [bind_eq, wp_bind, del_open_order, wp_read, thenPost]
    rw [if_pos (hk oid List.mem_cons_self), wp_modify]
    refine ⟨trivial, hA.wp_ask rfl fun _ s1 h1 => hA.wp_drop_each hn (fun id hid => ?_) ?_⟩
    · rw [h1.om]
      obtain ⟨o, ho, rfl⟩ := Keyed.mem_keys.mp (hk id (List.mem_cons_of_mem _ hid))
      exact Keyed.mem_keys.mpr ⟨o, Keyed.mem_erase.mpr ⟨ho, fun he => hne (he ▸ hid)⟩, rfl⟩
    · intro s2 h2
      refine hQ s2 ⟨?_, h2.drawn.trans h1.drawn, fun id hi => h2.used id (h1.used id hi)⟩
      rw [h2.om, h1.om]
      rfl

/-- What the loops of the sync make of the tracked orders. -/
theorem toList_sync (tracked : Orders) (live : List Order) :
    ((Keyed.ofList live : Orders).toList.foldl Keyed.add
      ((tracked.keys.filter fun oid => decide (oid ∉ (Keyed.ofList live : Orders).keys)).foldl
        Keyed.erase tracked)).toList = synced tracked live := by
  rw [Keyed.toList_foldl_add (Keyed.nodup _), Keyed.toList_foldl_erase, synced]
  congr 1
  · refine List.filter_congr fun o ho => ?_
    rw [decide_eq_decide, List.mem_filter, decide_eq_true_eq]
    have : o.id ∈ tracked.keys := Keyed.key_mem ho
    tauto
  · refine List.filter_congr fun o ho => ?_
    rw [decide_eq_decide, Keyed.mem_keys, Keyed.mem_keys]
    have hlive : o.id ∈ (Keyed.ofList live : Orders).keys := Keyed.key_mem ho
    refine not_congr ⟨fun ⟨x, hx, hk⟩ => ?_, fun ⟨x, hx, hk⟩ => ?_⟩
    · rw [Keyed.mem_def, Keyed.toList_foldl_erase] at hx
      exact ⟨x, (List.mem_filter.mp hx).1, hk⟩
    · refine ⟨x, ?_, hk⟩
      rw [Keyed.mem_def, Keyed.toList_foldl_erase, List.mem_filter, decide_eq_true_eq,
        List.mem_filter, decide_eq_true_eq, hk]
      exact ⟨hx, fun h => h.2 hlive⟩

/-- Adding the live orders, as a change of the order manager alone. -/
theorem foldl_mapOm_add : ∀ (l : List Order) (s : Sys E),
    l.foldl (fun s order => s.mapOm fun om =>
      { om with open_orders := om.open_orders.add order }) s =
    s.mapOm fun om => { om with open_orders := l.foldl Keyed.add om.open_orders }
  | [], _ => rfl
  | _ :: l, _ => foldl_mapOm_add l _

/-- The orders tracked after the sync. -/
def afterSync (om : OrderManager) (live : List Order) : List Order :=
  if om.dry_run then om.open_orders.toList else synced om.open_orders live

/-- **The sync** leaves `afterSync` and nothing else changed. -/
theorem Smooth.wp_sync (hA : Smooth A view used) {Q : Except Exn Unit → Sys E → Prop}
    (hQ : ∀ d s', Reached used s { s.om with open_orders := d } s' →
      d.toList = afterSync s.om (view s.env) → Q (.ok ()) s') :
    wp A alone Q sync_open_orders s := by
  rw [sync_open_orders, bind_eq, wp_bind, wp_ask_alone .acquire]
  obtain ⟨v, hv⟩ := hA.ok .acquire s rfl
  have h1 := hA.reached .acquire s
  have hview := hA.acquire s
  rw [hv]
  simp only [thenPost, bind_eq, wp_bind, wp_read, h1.om]
  by_cases hd : s.om.dry_run = true
  · rw [if_pos hd]
    refine hQ s.om.open_orders _ h1 ?_
    rw [afterSync, if_pos hd]
  · rw [if_neg hd, wp_tryCatch, sync_body, bind_eq, wp_bind, wp_ask_alone .fetch_open_orders,
      hA.fetch, hview]
    have h2 := h1.trans (h1.om ▸ hA.reached .fetch_open_orders (A .acquire s).2)
    simp only [thenPost, bind_eq, wp_bind, wp_read]
    refine hA.wp_drop_each (s.om.open_orders.nodup.filter _ |> fun h => by rwa [h2.om]) ?_ ?_
    · intro id hid
      exact (List.mem_filter.mp hid).1
    · intro s3 h3
      simp only [thenPost]
      rw [wp_forEach_modify_alone, foldl_mapOm_add]
      rw [h2.om] at h3
      refine hQ _ _ ((h2.trans h3).mapOm fun om =>
        { om with open_orders :=
            (Keyed.ofList (view s.env) : Orders).toList.foldl Keyed.add om.open_orders }) ?_
      rw [toList_sync, afterSync, if_neg hd]

theorem Smooth.run_sync (hA : Smooth A view used) (s : Sys E) :
    (sync_open_orders.run A s).1 = .ok () ∧ ∃ d : Orders,
      Reached used s { s.om with open_orders := d } (sync_open_orders.run A s).2 ∧
      d.toList = afterSync s.om (view s.env) := by
  have h : wp A alone (fun x s' => x = .ok () ∧ ∃ d : Orders,
      Reached used s { s.om with open_orders := d } s' ∧ d.toList = afterSync s.om (view s.env))
      sync_open_orders s := hA.wp_sync fun d s' h1 h2 => ⟨rfl, d, h1, h2⟩
  exact wp_alone.mp h

/-! ## Cancelling -/

theorem Smooth.wp_cancel_one (hA : Smooth A view used) {order : Order}
    {Q : Except Exn Unit → Sys E → Prop}
    (hQ : ∀ s', Reached used s (untrack order.id s.om) s' → Q (.ok ()) s') :
    wp A alone Q (cancel_one order) s := by
  rw [cancel_one, bind_eq, wp_bind]
  refine hA.wp_ask rfl fun _ s1 h1 => ?_
  simp only [thenPost, bind_eq, wp_bind, wp_read]
  have hrest : ∀ s2, Reached used s s.om s2 → wp A alone Q (do
      Prog.modify (Sys.mapOm (untrack order.id))
      ask (.update_order_status order.id "canceled")) s2 := by
    intro s2 h2
    rw [bind_eq, wp_bind, wp_modify]
    refine ⟨trivial, hA.wp_ask rfl fun _ s3 h3 => hQ s3 ?_⟩
    have h4 := (h2.mapOm (untrack order.id)).trans h3
    rwa [show (s2.mapOm (untrack order.id)).om = untrack order.id s.om from
      congrArg (untrack order.id) h2.om] at h4
  split
  · exact hrest s1 h1
  · rw [wp_bind]
    refine hA.wp_ask rfl fun _ s2 h2 => hrest s2 ?_
    rw [h1.om] at h2
    exact h1.trans h2

/-- Cancelling a list of orders. -/
theorem Smooth.wp_cancel_each (hA : Smooth A view used) {Q : Except Exn Unit → Sys E → Prop} :
    ∀ {l : List Order} {s : Sys E},
      (∀ s', Reached used s (l.foldl (fun om o => untrack o.id om) s.om) s' → Q (.ok ()) s') →
      wp A alone Q (Prog.forEach l cancel_one) s
  | [], s, hQ => hQ s (Reached.refl s)
  | order :: l, s, hQ => by
    rw [Prog.forEach, wp_bind]
    refine hA.wp_cancel_one fun s1 h1 => hA.wp_cancel_each fun s2 h2 => hQ s2 ?_
    rw [h1.om] at h2
    exact h1.trans h2

/-- One round of the ageing, on the order manager. -/
def dropAged (om : OrderManager) (oid : String) : OrderManager :=
  match om.open_orders.find? oid with
  | some order => untrack order.id om
  | none => om

/-- Cancelling a list of ids as far as they are tracked. -/
theorem Smooth.wp_age_each (hA : Smooth A view used) {Q : Except Exn Unit → Sys E → Prop} :
    ∀ {l : List String} {s : Sys E},
      (∀ s', Reached used s (l.foldl dropAged s.om) s' → Q (.ok ()) s') →
      wp A alone Q (Prog.forEach l cancel_aged) s
  | [], s, hQ => hQ s (Reached.refl s)
  | oid :: l, s, hQ => by
    rw [Prog.forEach, wp_bind, cancel_aged, bind_eq, wp_bind, wp_read]
    rw [List.foldl_cons, dropAged] at hQ
    simp only [thenPost]
    split
    · rename_i order hf
      rw [hf] at hQ
      refine hA.wp_cancel_one fun s1 h1 => hA.wp_age_each fun s2 h2 => hQ s2 ?_
      rw [h1.om] at h2
      exact h1.trans h2
    · rename_i hf
      rw [hf] at hQ
      exact hA.wp_age_each hQ

theorem foldl_untrack_open : ∀ (l : List Order) (om : OrderManager),
    (l.foldl (fun om o => untrack o.id om) om).open_orders =
      (l.map Order.id).foldl Keyed.erase om.open_orders
  | [], _ => rfl
  | _ :: l, _ => foldl_untrack_open l _

theorem foldl_untrack_dry : ∀ (l : List Order) (om : OrderManager),
    (l.foldl (fun om o => untrack o.id om) om).dry_run = om.dry_run
  | [], _ => rfl
  | _ :: l, _ => foldl_untrack_dry l _

theorem dropAged_dry (om : OrderManager) (oid : String) : (dropAged om oid).dry_run = om.dry_run := by
  unfold dropAged
  split <;> rfl

theorem dropAged_open (om : OrderManager) (oid : String) :
    (dropAged om oid).open_orders.toList = (om.open_orders.erase oid).toList := by
  unfold dropAged
  split
  · rename_i order hf
    rw [(Keyed.find?_eq_some.mp hf).2]
    rfl
  · rename_i hf
    have hne := Keyed.find?_eq_none.mp hf
    rw [Keyed.toList_erase, List.filter_eq_self.mpr]
    intro o ho
    rw [decide_eq_true_eq]
    exact fun he => hne (he ▸ Keyed.key_mem ho)

theorem foldl_dropAged_dry : ∀ (l : List String) (om : OrderManager),
    (l.foldl dropAged om).dry_run = om.dry_run
  | [], _ => rfl
  | oid :: l, om => (foldl_dropAged_dry l _).trans (dropAged_dry om oid)

theorem foldl_dropAged_open : ∀ (l : List String) (om : OrderManager),
    (l.foldl dropAged om).open_orders.toList =
      om.open_orders.toList.filter fun o => decide (o.id ∉ l)
  | [], om => by simp
  | oid :: l, om => by
    rw [List.foldl_cons, foldl_dropAged_open l, dropAged_open, Keyed.toList_erase,
      List.filter_filter]
    refine List.filter_congr fun x _ => ?_
    rw [← Bool.decide_and, decide_eq_decide, List.mem_cons]
    tauto

/-! ## The orders held over -/

/-- The order was placed more than `max_order_age_seconds` before `now`. -/
def agedOut (om : OrderManager) (now : ℚ) (id : String) : Bool :=
  decide (0 < om.max_order_age_seconds) && om.order_created_at.toList.any fun p =>
    decide (p.1 = id ∧ now - p.2 > om.max_order_age_seconds)

/-- The orders left after the sync and the ageing at time `now`. -/
def heldOver (om : OrderManager) (live : List Order) (now : ℚ) : List Order :=
  (afterSync om live).filter fun o => !agedOut om now o.id

/-- The orders a call of `diff_and_repost` holds over: it reads the clock once the sync is over. -/
def held (A : Answer (Sys E) Rep Exn) (view : E → List Order) (s : Sys E) : List Order :=
  heldOver s.om (view s.env) (sync_open_orders.run A s).2.clock

/-- The orders held over that have a price of the grid near: those that are not stale. -/
def kept (held : List Order) (grid : OrderGrid) : List Order :=
  held.filter fun o => (grid.buy_prices ++ grid.sell_prices).any fun desired => near o.price desired

theorem mem_stale_ids {om : OrderManager} {now : ℚ} {oid : String} (h : oid ∈ om.open_orders.keys) :
    oid ∈ om.stale_ids now ↔ om.order_created_at.toList.any (fun p =>
      decide (p.1 = oid ∧ now - p.2 > om.max_order_age_seconds)) = true := by
  rw [stale_ids, List.mem_map, List.any_eq_true]
  constructor
  · rintro ⟨p, hp, rfl⟩
    obtain ⟨hp, hc⟩ := List.mem_filter.mp hp
    exact ⟨p, hp, decide_eq_true ⟨rfl, (of_decide_eq_true hc).1⟩⟩
  · rintro ⟨p, hp, hc⟩
    obtain ⟨rfl, hage⟩ := of_decide_eq_true hc
    exact ⟨p, List.mem_filter.mpr ⟨hp, decide_eq_true ⟨hage, h⟩⟩, rfl⟩

/-- **The ageing** leaves the orders held over: it cancels every tracked order that is too old, and
no cancellation fails. -/
theorem Smooth.wp_age (hA : Smooth A view used) {Q : Except Exn Unit → Sys E → Prop}
    {tracked : List Order} (ht : s.om.open_orders.toList = tracked)
    (hQ : ∀ om s', Reached used s om s' → om.dry_run = s.om.dry_run →
      om.open_orders.toList = tracked.filter (fun o => !agedOut s.om s.clock o.id) →
      Q (.ok ()) s') :
    wp A alone Q cancel_stale_by_age s := by
  rw [cancel_stale_by_age, bind_eq, wp_bind, wp_read]
  simp only [thenPost]
  split
  · rename_i hle
    refine hQ s.om s (Reached.refl s) rfl ?_
    rw [ht, List.filter_eq_self.mpr]
    intro o _
    simp [agedOut, not_lt.mpr hle]
  · rename_i hlt
    refine hA.wp_age_each fun s1 h1 => hQ _ s1 h1 (foldl_dropAged_dry _ _) ?_
    rw [foldl_dropAged_open, ht]
    refine List.filter_congr fun o ho => ?_
    rw [← ht] at ho
    have hmem := @mem_stale_ids s.om s.clock o.id (Keyed.key_mem (d := s.om.open_orders) ho)
    rw [Bool.eq_iff_iff, decide_eq_true_eq, hmem, agedOut, decide_eq_true (not_le.mp hlt),
      Bool.true_and, Bool.not_eq_true', Bool.not_eq_true]

/-! ## Placing -/

/-- The level asks for an order: `_place_one` skips the others. -/
def positive (l : Level) : Bool := decide (0 < l.2.1 ∧ 0 < l.2.2)

/-- The order serves the level: the level's side, and a price within the tolerance. -/
def Serves (o : Order) (l : Level) : Prop := o.side = l.1 ∧ near o.price l.2.1 = true

/-- The tracked ids are ones that the id source or the exchange has given out. -/
structure Ready (used : E → List String) (s : Sys E) : Prop where
  dry : s.om.dry_run = true → ∀ id ∈ s.om.open_orders.keys, ∀ d, id = "DRY-" ++ d → d ∈ s.drawn
  live : s.om.dry_run = false → ∀ id ∈ s.om.open_orders.keys, id ∈ used s.env

theorem Ready.of_reached (h : Ready used s) (hr : Reached used s om s')
    (hd : om.dry_run = s.om.dry_run)
    (hk : ∀ id ∈ om.open_orders.keys, id ∈ s.om.open_orders.keys) : Ready used s' where
  dry := by
    rw [hr.om, hd, hr.drawn]
    exact fun hdry id hid => h.dry hdry id (hk id hid)
  live := by
    rw [hr.om, hd]
    exact fun hlive id hid => hr.used id (h.live hlive id (hk id hid))

/-- `o` was made for `l`: simulated at its side and price in dry-run mode, else created by the
exchange on request. -/
def Made (A : Answer (Sys E) Rep Exn) (dry_run : Bool) (o : Order) (l : Level) : Prop :=
  if dry_run then Serves o l else ∃ s, (A (.create_limit_order l.1 l.2.1 l.2.2) s).1 = .ok o

/-- The exchange creates each order at the requested side, and at the requested price up to the
tolerance. -/
def Echoes (A : Answer (Sys E) Rep Exn) : Prop :=
  ∀ side price amount s o, (A (.create_limit_order side price amount) s).1 = .ok o →
    o.side = side ∧ near o.price price = true

theorem Made.serves (hE : Echoes A) {dry_run : Bool} {o : Order} {l : Level}
    (h : Made A dry_run o l) : Serves o l := by
  unfold Made at h
  split at h
  · exact h
  · obtain ⟨s, hs⟩ := h
    exact hE _ _ _ s o hs

/-- In dry-run mode the ids drawn between two states were new; in live mode none is drawn. -/
def NewDraws (s s' : Sys E) : Prop := s.om.dry_run = true → NewSince s.drawn s'.drawn

/-- `o` has been placed for `level`: it is tracked last, if its id was new. -/
structure Placed (A : Answer (Sys E) Rep Exn) (used : E → List String) (s : Sys E) (level : Level)
    (o : Order) (s' : Sys E) : Prop where
  made : Made A s.om.dry_run o level
  tracked : NewDraws s s' → s'.om.open_orders.toList = s.om.open_orders.toList ++ [o]
  dry_run : s'.om.dry_run = s.om.dry_run
  drawn : s.drawn <:+ s'.drawn
  ready : Ready used s'

theorem near_self (price : ℚ) : near price price = true := by
  simp only [near, PRICE_TOLERANCE_PCT, sub_self, abs_zero, zero_div, zero_mul]
  norm_num

/-- Tracking an order whose id is new. -/
theorem toList_track {o : Order} {now : ℚ} (h : o.id ∉ om.open_orders.keys) :
    (track o now om).open_orders.toList = om.open_orders.toList ++ [o] :=
  Keyed.toList_set_of_not_mem h

theorem mem_keys_track {o : Order} {now : ℚ} {id : String} :
    id ∈ (track o now om).open_orders.keys ↔ id = o.id ∨ id ∈ om.open_orders.keys :=
  Keyed.mem_keys_set

theorem Smooth.wp_place_dry (hA : Smooth A view used) (hs : Ready used s)
    (hd : s.om.dry_run = true) {level : Level} {Q : Except Exn (Option Order) → Sys E → Prop}
    (hQ : ∀ o s', Placed A used s level o s' → Q (.ok (some o)) s') :
    wp A alone Q (place_dry level.1 level.2.1 level.2.2) s := by
  rw [place_dry, bind_eq, wp_bind, wp_read]
  simp only [thenPost, bind_eq, wp_bind, wp_modify]
  refine ⟨trivial, hA.wp_ask rfl fun _ s1 h1 => ?_⟩
  have hdrawn : s1.drawn = s.uuid4 s.drawn :: s.drawn := h1.drawn
  refine hQ _ s1 ⟨?_, fun hnew => ?_, ?_, ?_, ?_, ?_⟩
  · rw [Made, if_pos hd]
    exact ⟨rfl, near_self _⟩
  · have hid : s.uuid4 s.drawn ∉ s.drawn :=
      hnew hd _ _ (hdrawn ▸ List.suffix_rfl) List.suffix_rfl
    rw [h1.om]
    exact toList_track fun hm => hid (hs.dry hd _ hm _ rfl)
  · rw [h1.om]
    rfl
  · rw [hdrawn]
    exact List.suffix_cons _ _
  · rw [h1.om, h1.drawn]
    intro _ id hid d hid'
    rcases mem_keys_track.mp hid with rfl | hid
    · rw [(String.append_right_inj _).mp hid'.symm]
      exact List.mem_cons_self
    · exact List.mem_cons_of_mem _ (hs.dry hd id hid d hid')
  · rw [h1.om]
    exact fun hl => absurd (hd.symm.trans hl) (by simp)

theorem Smooth.wp_place_live (hA : Smooth A view used) (hs : Ready used s)
    (hd : s.om.dry_run = false) {level : Level} {Q : Except Exn (Option Order) → Sys E → Prop}
    (hQ : ∀ o s', Placed A used s level o s' → Q (.ok (some o)) s') :
    wp A alone Q (place_live level.1 level.2.1 level.2.2) s := by
  obtain ⟨o, ho, hnew, hused⟩ := hA.create level.1 level.2.1 level.2.2 s
  have h1 := hA.reached (.create_limit_order level.1 level.2.1 level.2.2) s
  have hid : o.id ∉ s.om.open_orders.keys := fun hm => hnew (hs.live hd _ hm)
  rw [place_live, wp_tryCatch, bind_eq, wp_bind,
    wp_ask_alone (.create_limit_order level.1 level.2.1 level.2.2), ho]
  simp only [thenPost, bind_eq, wp_bind, wp_modify]
  refine ⟨trivial, hA.wp_ask rfl fun _ s2 h2 => hQ o s2 ⟨?_, fun _ => ?_, ?_, ?_, ?_, ?_⟩⟩
  · rw [Made, if_neg (by simp [hd])]
    exact ⟨s, by rw [ho]⟩
  · rw [h2.om, tracking_om, h1.om]
    exact toList_track hid
  · rw [h2.om, tracking_om, h1.om]
    rfl
  · have hdrawn : s2.drawn = s.drawn := h2.drawn.trans h1.drawn
    exact hdrawn ▸ List.suffix_rfl
  · rw [h2.om, tracking_om, h1.om]
    exact fun hdry => absurd (hd.symm.trans hdry) (by simp)
  · rw [h2.om, tracking_om, h1.om]
    intro _ id hm
    rcases mem_keys_track.mp hm with rfl | hm
    · exact h2.used _ hused
    · exact h2.used _ (h1.used _ (hs.live hd id hm))

/-- A positive level is served by a new order. -/
theorem Smooth.wp_place_one (hA : Smooth A view used) (hs : Ready used s) {level : Level}
    (hp : positive level = true) {Q : Except Exn (Option Order) → Sys E → Prop}
    (hQ : ∀ o s', Placed A used s level o s' → Q (.ok (some o)) s') :
    wp A alone Q (place_one level) s := by
  obtain ⟨hprice, hamount⟩ := of_decide_eq_true hp
  rw [place_one, if_neg (by rintro (h | h); exacts [not_lt.mpr h hamount, not_lt.mpr h hprice]),
    bind_eq, wp_bind]
  refine hA.wp_ask rfl fun _ s1 h1 => ?_
  have hs1 : Ready used s1 := hs.of_reached h1 rfl fun _ h => h
  have hQ1 : ∀ o s', Placed A used s1 level o s' → Q (.ok (some o)) s' := fun o s' h =>
    hQ o s' ⟨h1.om ▸ h.made,
      fun hnew => h1.om ▸ h.tracked fun hd => h1.drawn ▸ hnew (h1.om ▸ hd),
      h.dry_run.trans (congrArg _ h1.om), h1.drawn ▸ h.drawn, h.ready⟩
  simp only [thenPost, bind_eq, wp_bind, wp_read]
  split
  · rename_i hd
    exact hA.wp_place_dry hs1 hd hQ1
  · rename_i hd
    exact hA.wp_place_live hs1 (Bool.eq_false_iff.mpr hd) hQ1

/-- A level that is not positive is skipped. -/
theorem place_one_nonpositive {level : Level} (hp : positive level = false) :
    (place_one level : Co E (Option Order)) = .done none := by
  rw [place_one, if_pos, pure_eq]
  by_contra h
  rw [not_or, not_le, not_le] at h
  exact of_decide_eq_false hp ⟨h.2, h.1⟩

/-- Placing a list of levels: one new order for each positive one, in their order. -/
theorem Smooth.wp_place_each (hA : Smooth A view used) (hs : Ready used s) {ls : List Level}
    {Q : Except Exn (List Order) → Sys E → Prop}
    (hQ : ∀ placed s',
      (NewDraws s s' → s'.om.open_orders.toList = s.om.open_orders.toList ++ placed) →
      s'.om.dry_run = s.om.dry_run → Ready used s' →
      List.Forall₂ (Made A s.om.dry_run) placed (ls.filter positive) → Q (.ok placed) s') :
    wp A alone Q (Prog.collect ls place_one) s := by
  refine wp_collect (fun rest out s1 => ∃ front, front ++ rest = ls ∧ Ready used s1 ∧
    s1.om.dry_run = s.om.dry_run ∧ s.drawn <:+ s1.drawn ∧
    (NewDraws s s1 → s1.om.open_orders.toList = s.om.open_orders.toList ++ out) ∧
    List.Forall₂ (Made A s.om.dry_run) out (front.filter positive)) ?_ ?_
    ⟨[], rfl, hs, rfl, List.suffix_rfl, by simp, .nil⟩
  · rintro level rest out s1 ⟨front, hfront, hs1, hdry, hdrawn, htrack, hout⟩
    have hrest : (front ++ [level]) ++ rest = ls := by simpa using hfront
    by_cases hp : positive level = true
    · refine hA.wp_place_one hs1 hp fun o s2 h2 =>
        ⟨_, hrest, h2.ready, h2.dry_run.trans hdry, hdrawn.trans h2.drawn, fun hnew => ?_, ?_⟩
      · rw [h2.tracked fun hd => (hnew (hdry ▸ hd)).after hdrawn,
          htrack fun hd => (hnew hd).at h2.drawn, List.append_assoc]
      · rw [List.filter_append, List.filter_singleton, hp]
        exact List.rel_append hout (.cons (hdry ▸ h2.made) .nil)
    · rw [Bool.not_eq_true] at hp
      rw [place_one_nonpositive hp, wp_done]
      refine ⟨_, hrest, hs1, hdry, hdrawn, htrack, ?_⟩
      rwa [List.filter_append, List.filter_singleton, hp, cond_false, List.append_nil]
  · rintro out s1 ⟨front, hfront, hs1, hdry, -, htrack, hout⟩
    rw [List.append_nil] at hfront
    exact hQ out s1 htrack hdry hs1 (hfront ▸ hout)

/-! ## The whole method -/

/-- The ids of the orders there are were given out by the id source or by the exchange. -/
structure KnownIds (view : E → List Order) (used : E → List String) (s : Sys E) : Prop where
  dry : s.om.dry_run = true → ∀ id ∈ s.om.open_orders.keys, ∀ d, id = "DRY-" ++ d → d ∈ s.drawn
  live : ∀ o ∈ view s.env, o.id ∈ used s.env

theorem mem_afterSync {o : Order} {live : List Order} (h : o ∈ afterSync om live) :
    (om.dry_run = true ∧ o ∈ om.open_orders) ∨ ∃ x ∈ live, x.id = o.id := by
  unfold afterSync synced at h
  have hlive : ∀ {id}, id ∈ (Keyed.ofList live : Orders).keys → ∃ x ∈ live, x.id = id := by
    intro id hid
    by_contra hno
    refine Keyed.find?_eq_none.mp ?_ hid
    rw [Keyed.ofList, Keyed.find?_foldl_set_of_not_mem fun hm => hno (List.mem_map.mp hm)]
    rfl
  split at h
  · rename_i hd
    exact .inl ⟨hd, h⟩
  · refine .inr ?_
    rcases List.mem_append.mp h with h | h
    · exact hlive (of_decide_eq_true (List.mem_filter.mp h).2)
    · exact hlive (Keyed.key_mem (List.mem_filter.mp h).1)

/-- So were the ids tracked after the sync. -/
theorem KnownIds.ready (h : KnownIds view used s) {d : Orders}
    (hr : Reached used s { s.om with open_orders := d } s')
    (hd : d.toList = afterSync s.om (view s.env)) : Ready used s' where
  dry := by
    rw [hr.om, hr.drawn]
    intro hdry id hid
    obtain ⟨o, ho, rfl⟩ := Keyed.mem_keys.mp hid
    rw [Keyed.mem_def, hd, afterSync, if_pos hdry] at ho
    exact h.dry hdry o.id (Keyed.key_mem ho)
  live := by
    rw [hr.om]
    intro hlive id hid
    obtain ⟨o, ho, rfl⟩ := Keyed.mem_keys.mp hid
    rw [Keyed.mem_def, hd] at ho
    rcases mem_afterSync ho with ⟨hdry, -⟩ | ⟨x, hx, hxo⟩
    · exact absurd (hlive.symm.trans hdry) (by simp)
    · exact hr.used _ (hxo ▸ h.live x hx)

/-- Cancelling the stale orders leaves the kept ones. -/
theorem toList_cancel_stale (om : OrderManager) (grid : OrderGrid) :
    ((om.find_stale_orders grid).foldl (fun om o => untrack o.id om) om).open_orders.toList =
      kept om.open_orders.toList grid := by
  rw [foldl_untrack_open, Keyed.toList_foldl_erase, kept]
  refine List.filter_congr fun o ho => ?_
  rw [Bool.eq_iff_iff, decide_eq_true_eq, List.mem_map, not_exists]
  constructor
  · intro h
    by_contra hno
    refine h o ⟨List.mem_filter.mpr ⟨ho, ?_⟩, rfl⟩
    rwa [Bool.not_eq_true', ← Bool.not_eq_true]
  · rintro h x ⟨hx, hxo⟩
    obtain ⟨hxm, hxs⟩ := List.mem_filter.mp hx
    rw [Keyed.eq_of_key (d := om.open_orders) hxm ho hxo, Bool.not_eq_true'] at hxs
    exact absurd (hxs.symm.trans h) (by simp)

/-- A positive level with no held order near: it gets a new one. -/
def vacant (held : List Order) (grid : OrderGrid) : List Level :=
  ((levels grid).filter positive).filter fun l => !has_order_near l.2.1 (held.map Order.price)

/-- A positive level with a held order near: it gets none. -/
def covered (held : List Order) (grid : OrderGrid) : List Level :=
  ((levels grid).filter positive).filter fun l => has_order_near l.2.1 (held.map Order.price)

/-- The positive ones among the missing levels are the vacant ones. -/
theorem filter_missing (om : OrderManager) (grid : OrderGrid) :
    (om.find_missing_levels grid).filter positive = vacant om.open_orders.toList grid := by
  rw [find_missing_levels, vacant, List.filter_filter, List.filter_filter]
  exact List.filter_congr fun l _ => Bool.and_comm _ _

/-- From the state after the sync on. -/
theorem Smooth.wp_after_sync (hA : Smooth A view used) (hs : Ready used s)
    {tracked : List Order} (ht : s.om.open_orders.toList = tracked) {grid : OrderGrid}
    {held : List Order} (hheld : held = tracked.filter fun o => !agedOut s.om s.clock o.id)
    {Q : Except Exn (List Order) → Sys E → Prop}
    (hQ : ∀ placed s', (NewDraws s s' → s'.om.open_orders.toList = kept held grid ++ placed) →
      s'.om.dry_run = s.om.dry_run →
      List.Forall₂ (Made A s.om.dry_run) placed (vacant held grid) → Q (.ok placed) s') :
    wp A alone Q (do
      cancel_stale_by_age
      let s ← Prog.read
      Prog.forEach (s.om.find_stale_orders grid) cancel_one
      let placed ← Prog.collect (s.om.find_missing_levels grid) place_one
      Prog.modify (Sys.mapOm fun om => { om with last_grid := some grid })
      pure placed) s := by
  simp only [bind_eq, wp_bind, pure_eq]
  refine hA.wp_age ht fun om2 s2 h2 hdry2 hopen2 => ?_
  rw [← hheld] at hopen2
  have hs2 : Ready used s2 := hs.of_reached h2 hdry2 fun id hid => by
    obtain ⟨o, ho, rfl⟩ := Keyed.mem_keys.mp hid
    rw [Keyed.mem_def, hopen2, hheld, ← ht] at ho
    exact Keyed.key_mem (List.mem_filter.mp ho).1
  have hopen : s2.om.open_orders.toList = held := by rw [h2.om, hopen2]
  simp only [thenPost, wp_bind, wp_read]
  refine hA.wp_cancel_each fun s3 h3 => ?_
  have hkept : s3.om.open_orders.toList = kept held grid := by
    rw [h3.om, toList_cancel_stale, hopen]
  have hs3 : Ready used s3 := hs2.of_reached h3 (foldl_untrack_dry _ _) fun id hid => by
    obtain ⟨o, ho, rfl⟩ := Keyed.mem_keys.mp hid
    rw [Keyed.mem_def, toList_cancel_stale] at ho
    exact Keyed.key_mem (List.mem_filter.mp ho).1
  simp only [thenPost, wp_bind]
  have hdry3 : s3.om.dry_run = s.om.dry_run := by rw [h3.om, foldl_untrack_dry, h2.om, hdry2]
  have hdrawn3 : s3.drawn = s.drawn := h3.drawn.trans h2.drawn
  refine hA.wp_place_each hs3 fun placed s4 hopen4 hdry4 _ hmade => ?_
  rw [filter_missing, hopen, hdry3] at hmade
  rw [hkept, NewDraws, hdry3, hdrawn3] at hopen4
  exact ⟨trivial, hQ placed _ hopen4 (hdry4.trans hdry3) hmade⟩

/-- **One `diff_and_repost` that raises nothing**: the orders open afterwards are the kept ones and
one new order made for each vacant level, if the ids drawn for them were new. -/
theorem Smooth.diff_and_repost_spec (hA : Smooth A view used) (hs : KnownIds view used s)
    (grid : OrderGrid) :
    ∃ placed, ((diff_and_repost grid).run A s).1 = .ok placed ∧
      (NewDraws s ((diff_and_repost grid).run A s).2 →
        ((diff_and_repost grid).run A s).2.om.open_orders.toList =
          kept (held A view s) grid ++ placed) ∧
      ((diff_and_repost grid).run A s).2.om.dry_run = s.om.dry_run ∧
      List.Forall₂ (Made A s.om.dry_run) placed (vacant (held A view s) grid) := by
  obtain ⟨hsync, d, h1, hd⟩ := hA.run_sync s
  have h : wp A alone (fun x s' => ∃ placed, x = .ok placed ∧
      (NewDraws s s' → s'.om.open_orders.toList = kept (held A view s) grid ++ placed) ∧
      s'.om.dry_run = s.om.dry_run ∧
      List.Forall₂ (Made A s.om.dry_run) placed (vacant (held A view s) grid))
      (diff_and_repost grid) s := by
    rw [diff_and_repost, bind_eq, wp_bind, wp_alone, hsync]
    have hdry : (sync_open_orders.run A s).2.om.dry_run = s.om.dry_run := by rw [h1.om]
    refine hA.wp_after_sync (hs.ready h1 hd) rfl ?_ fun placed s' h2 h3 h4 =>
      ⟨placed, rfl, fun hnew => h2 fun hd => h1.drawn ▸ hnew (hdry ▸ hd), h3.trans hdry, hdry ▸ h4⟩
    rw [held, heldOver, h1.om, ← hd]
    rfl
  exact wp_alone.mp h

theorem has_order_near_iff {price : ℚ} {held : List Order} :
    has_order_near price (held.map Order.price) = true ↔ ∃ o ∈ held, near o.price price = true := by
  rw [has_order_near, List.any_map, List.any_eq_true]
  rfl

/-- Open orders and positive levels correspond one-to-one after the call. -/
def Realised (A : Answer (Sys E) Rep Exn) (s : Sys E) (grid : OrderGrid) : Prop :=
  OneToOne Serves ((diff_and_repost grid).run A s).2.om.open_orders.toList
    ((levels grid).filter positive)

/-- **The grid is realised exactly iff the kept orders already realise the covered levels** one to
one: what is placed serves the levels near no held order, so that a held order near two levels, or
two near one, is the only way to miss. The ids drawn in a dry-run call are ones that had not been
drawn before. -/
theorem realised_iff (hA : Smooth A view used) (hE : Echoes A) (hs : KnownIds view used s)
    (grid : OrderGrid) (hnew : NewDraws s ((diff_and_repost grid).run A s).2) :
    Realised A s grid ↔
      OneToOne Serves (kept (held A view s) grid) (covered (held A view s) grid) := by
  obtain ⟨placed, -, hopen, -, hmade⟩ := hA.diff_and_repost_spec hs grid
  have hvacant := OneToOne.of_forall₂ (hmade.imp fun _ _ h => h.serves hE)
  rw [vacant] at hvacant
  rw [Realised, hopen hnew, covered]
  refine oneToOne_append_iff
    (fun l : Level => has_order_near l.2.1 ((held A view s).map Order.price)) ?_ hvacant
  intro o ho l _ hol
  rw [kept] at ho
  obtain ⟨-, hnear⟩ := hol
  exact has_order_near_iff.mpr ⟨o, (List.mem_filter.mp ho).1, hnear⟩

/-! ## On an exchange where nothing fails -/

/-- An exchange where nothing fails and no id is used twice. -/
theorem smooth_answer {w : World} (hc : ∀ n, w.connector_fails n = false)
    (hd : ∀ n, w.db_fails n = false) (hid : ∀ l, w.new_id l ∉ l) :
    Smooth w.answer (fun v => v.live.toList) Venue.used where
  ok r s hr := by
    refine ⟨_, congrArg Prod.fst (World.answer_of_fault_none ?_)⟩
    cases r <;> first | rfl | exact absurd hr (by decide) | simp [World.fault, hc, hd]
  reached r s := by
    unfold World.answer
    split
    · exact ⟨rfl, rfl, fun _ h => h⟩
    · cases r <;> first | exact ⟨rfl, rfl, fun _ h => h⟩ | skip
      exact ⟨rfl, rfl, fun _ h => List.mem_cons_of_mem _ h⟩
  acquire s := rfl
  fetch s := by
    rw [World.answer_of_fault_none (by simp [World.fault, hc])]
    rfl
  create side price amount s := by
    rw [World.answer_of_fault_none (by simp [World.fault, hc])]
    exact ⟨_, rfl, hid _, List.mem_cons_self⟩

/-- It creates orders at the requested side and price. -/
theorem echoes_answer (w : World) : Echoes w.answer := by
  intro side price amount s o h
  unfold World.answer at h
  split at h
  · cases h
  · obtain rfl := Except.ok.inj h
    exact ⟨rfl, near_self price⟩

/-- An order manager that tracks the given order and nothing else. -/
def holding (dry_run : Bool) (o : Order) : Sys Venue where
  om := track o 0 { exchange := "kucoin", symbol := "ALKIMI/USDT", dry_run := dry_run }
  bot :=
    { exchange := "kucoin"
      q_switch := { exchange := "kucoin", min_balance_usd := 0, min_balance_token := 0 }
      circuit_breaker := { max_daily_loss_pct := 10, max_drawdown_pct := 10, day_start := 0 }
      has_paper_trader := false }
  paper := { exchange := "kucoin", maker_fee_rate := 0 }
  clock := 0
  uuid4 := World.longer
  env := { live := Keyed.empty.set o, used := [o.id] }

/-- A sell order at the price 100. -/
def sell_at_100 : Order :=
  { id := "1", exchange := "kucoin", symbol := "ALKIMI/USDT", side := .sell, price := 100, amount := 1
    amount_usd := 100, status := "open", timestamp := 0 }

/-- A grid with one buy level at the price 100. -/
def buy_at_100 : OrderGrid :=
  { buy_prices := [100], buy_amounts := [1], sell_prices := [], sell_amounts := [], global_mid := 100
    aggressiveness := 0 }

theorem smooth_quiet : Smooth World.quiet.answer (fun v => v.live.toList) Venue.used :=
  smooth_answer (fun _ => rfl) (fun _ => rfl) World.longer_not_mem

theorem knownIds_holding (o : Order) :
    KnownIds (fun v : Venue => v.live.toList) Venue.used (holding false o) where
  dry hd := absurd hd Bool.false_ne_true
  live x hx := by
    obtain rfl := List.mem_singleton.mp hx
    exact List.mem_cons_self

/-- The order of the other side is kept and the buy level goes without an order. -/
theorem sell_serves_buy :
    ¬∀ (w : World) (s : Sys Venue) (grid : OrderGrid),
      Smooth w.answer (fun v => v.live.toList) Venue.used → Echoes w.answer →
      KnownIds (fun v => v.live.toList) Venue.used s →
      NewDraws s ((diff_and_repost grid).run w.answer s).2 →
      grid.buy_prices.length = grid.buy_amounts.length →
      grid.sell_prices.length = grid.sell_amounts.length → Realised w.answer s grid := by
  intro h
  obtain ⟨zs, hp, hf⟩ := h World.quiet (holding false sell_at_100) buy_at_100 smooth_quiet
    (echoes_answer _) (knownIds_holding _) (fun hd => absurd hd Bool.false_ne_true) rfl rfl
  have hopen : ((diff_and_repost buy_at_100).run World.quiet.answer
      (holding false sell_at_100)).2.om.open_orders.toList = [sell_at_100] := by decide +kernel
  have hlevels : (levels buy_at_100).filter positive = [(.buy, 100, 1)] := by decide +kernel
  rw [hlevels, List.perm_singleton] at hp
  rw [hopen, hp] at hf
  cases hf with
  | cons hserves _ => exact absurd hserves.1 (by decide)

/-- A sell level at the price 100, and a buy level away from it. -/
def both_at_100 : OrderGrid :=
  { buy_prices := [99], buy_amounts := [1], sell_prices := [100], sell_amounts := [2]
    global_mid := 100, aggressiveness := 0 }

/-- A tracked sell order that serves the sell level, and a vacant buy level. -/
theorem realised_both_at_100 :
    Realised World.quiet.answer (holding false sell_at_100) both_at_100 := by
  have hheld : held World.quiet.answer (fun v => v.live.toList) (holding false sell_at_100) =
      [sell_at_100] := by decide +kernel
  have hkept : kept [sell_at_100] both_at_100 = [sell_at_100] := by decide +kernel
  have hcovered : covered [sell_at_100] both_at_100 = [(.sell, 100, 2)] := by decide +kernel
  refine (realised_iff smooth_quiet (echoes_answer _) (knownIds_holding _) _
    fun hd => absurd hd Bool.false_ne_true).mpr ?_
  rw [hheld, hkept, hcovered]
  exact .of_forall₂ (.cons ⟨rfl, near_self 100⟩ .nil)

end Meridian.OrderManager
