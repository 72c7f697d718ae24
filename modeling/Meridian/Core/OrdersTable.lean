import Meridian.Core.OrderCalls
import Meridian.Core.Permits

/-!
# The orders table against the order cache

`core/order_manager.py` keeps the open orders in a cache (`_open_orders`) and in the `orders` table.
Placing and cancelling write both (`_place_one`, `_cancel_one`, `cancel_all`); `_sync_open_orders`
adopts an order it does not know into the cache only, and writes `'filled'` for every order that has
disappeared from the exchange.

Results:
* `table_disagrees`: an adopted order is tracked without a row, and an order that was cancelled on
  the exchange is recorded as filled;
* `table_agrees`: while no snapshot lists an untracked order, what a snapshot misses was filled and
  created orders are open, the open rows are the tracked orders and the filled rows were filled,
  after each call of every run.
-/

namespace Meridian.OrdersTable

open Coop Run OrderCalls

/-- The open rows are the tracked orders, and a row says `'filled'` only of a filled order. -/
structure Agreed (s : Sys Books) : Prop where
  tracked : ∀ id, id ∈ s.om.open_orders.keys ↔ (id, "open") ∈ s.env.rows
  filled : ∀ id, (id, "filled") ∈ s.env.rows → id ∈ s.env.filled

/-- A snapshot lists only tracked orders and every tracked order that it misses was filled; a
created order is open. -/
def Known : Req → Sys Books → Prop
  | .fetch_open_orders, s => s.env.outcome.fails = false →
    (∀ id ∈ s.env.live.keys, id ∈ s.om.open_orders.keys) ∧
      ∀ id ∈ s.om.open_orders.keys, id ∉ s.env.live.keys → id ∈ s.env.filled
  | .create_limit_order .., s => s.env.outcome.fails = false → s.env.outcome.order.status = "open"
  | _, _ => True

instance (r : Req) (s : Sys Books) : Decidable (Known r s) := by
  cases r with
  | fetch_open_orders =>
    exact inferInstanceAs (Decidable (s.env.outcome.fails = false →
      (∀ id ∈ s.env.live.keys, id ∈ s.om.open_orders.keys) ∧
        ∀ id ∈ s.om.open_orders.keys, id ∉ s.env.live.keys → id ∈ s.env.filled))
  | create_limit_order _ _ _ =>
    exact inferInstanceAs (Decidable (s.env.outcome.fails = false →
      s.env.outcome.order.status = "open"))
  | _ => exact instDecidableTrue

/-! ## Rows -/

section rows

variable {rows : Rows} {id k status st : String}

theorem mem_update : (k, st) ∈ update_order_status rows id status ↔
    (k, st) ∈ rows ∧ k ≠ id ∨ k = id ∧ st = status ∧ id ∈ rows.keys := by
  unfold update_order_status
  split
  · rename_i hid
    rw [Keyed.mem_set, Prod.mk.injEq]
    constructor
    · rintro (⟨rfl, rfl⟩ | h)
      · exact Or.inr ⟨rfl, rfl, hid⟩
      · exact Or.inl h
    · rintro (h | ⟨rfl, rfl, -⟩)
      · exact Or.inr h
      · exact Or.inl ⟨rfl, rfl⟩
  · rename_i hid
    constructor
    · exact fun h => Or.inl ⟨h, fun he => hid (he ▸ Keyed.key_mem h)⟩
    · rintro (h | ⟨-, -, h⟩)
      · exact h.1
      · exact absurd h hid

end rows

/-! ## What one call keeps -/

/-- A live order manager whose table agrees. -/
def Live (s : Sys Books) : Prop := s.om.dry_run = false ∧ Agreed s

/-- Nothing is relied on but that the others leave the order manager and the table alone. -/
def apart : Rules (Sys Books) Req where
  rely := Outside
  own _ _ := True
  guar _ _ := True
  may _ _ := True

variable {s s' : Sys Books}

theorem Live.outside (h : Live s) (ho : Outside s s') : Live s' := by
  refine ⟨ho.om ▸ h.1, fun id => ?_, fun id hid => ?_⟩
  · rw [ho.om, ho.rows]
    exact h.2.tracked id
  · rw [ho.rows] at hid
    exact ho.filled (h.2.filled id hid)

theorem closed : apart.Closed Live where
  refl := Outside.refl
  trans := Outside.trans
  stable ho h := h.outside ho

/-- The way the requests are served under the condition. -/
abbrev served : Answer (Sys Books) Rep Exn := guarded Known

/-- A request that does not write the table. -/
theorem keeps_ask {r : Req} (hr : writes r = false) : Keeps served apart Live (ask r) :=
  Keeps.call (fun ho h => h.outside ho) (fun _ _ => trivial)
    fun s h => ⟨trivial, h.outside (outside_guarded hr s)⟩

/-- The cache is ahead of the table: the order `id` is no longer tracked, and its row still open. -/
structure Behind (id : String) (s : Sys Books) : Prop where
  live : s.om.dry_run = false
  tracked : ∀ k, k ∈ s.om.open_orders.keys ↔ (k, "open") ∈ s.env.rows ∧ k ≠ id
  filled : ∀ k, (k, "filled") ∈ s.env.rows → k ∈ s.env.filled

theorem Behind.outside {id : String} (h : Behind id s) (ho : Outside s s') : Behind id s' := by
  refine ⟨ho.om ▸ h.live, fun k => ?_, fun k hk => ?_⟩
  · rw [ho.om, ho.rows]
    exact h.tracked k
  · rw [ho.rows] at hk
    exact ho.filled (h.filled k hk)

/-- The row is written. -/
theorem Behind.update {id status : String} (h : Behind id s) (hopen : status ≠ "open")
    (hfilled : status = "filled" → id ∈ s.env.filled) :
    Live { s with env := { s.env with rows := update_order_status s.env.rows id status } } := by
  refine ⟨h.live, fun k => ?_, fun k hk => ?_⟩
  · rw [h.tracked, mem_update]
    constructor
    · exact Or.inl
    · rintro (hk | ⟨-, hst, -⟩)
      · exact hk
      · exact absurd hst.symm hopen
  · rcases mem_update.mp hk with hk | ⟨rfl, hst, -⟩
    · exact h.filled k hk.1
    · exact hfilled hst.symm

theorem wp_update {id status : String} (h : Behind id s) (hopen : status ≠ "open")
    (hfilled : status = "filled" → id ∈ s.env.filled) :
    wp served apart (fun _ => Live) (ask (.update_order_status id status)) s := by
  rw [wp_ask]
  refine ⟨trivial, fun s1 h1 => ⟨trivial, fun s2 h2 => ?_⟩⟩
  have hlive := (h.outside h1).update hopen fun hst => h1.filled (hfilled hst)
  exact hlive.outside h2

/-- An order that is dropped from the cache. -/
theorem Live.drop (h : Live s) (id : String) {om : OrderManager} (hdry : om.dry_run = false)
    (hom : om.open_orders = s.om.open_orders.erase id) : Behind id { s with om := om } := by
  refine ⟨hdry, fun k => ?_, h.2.filled⟩
  simp only [hom, Keyed.mem_keys_erase, h.2.tracked k]

/-- **`_cancel_one`** keeps the agreement: the order leaves the cache and its row the open ones
before the next call. -/
theorem keeps_cancel_one (order : Order) :
    Keeps served apart Live (OrderManager.cancel_one order) := by
  unfold OrderManager.cancel_one
  refine (keeps_ask rfl).bind fun _ => ?_
  refine Keeps.read_bind fun s h => ?_
  rw [if_neg (by simp [h.1])]
  refine ((keeps_ask (r := .cancel_order order.id) rfl).bind fun _ => ?_) s h
  intro s h
  rw [bind_eq, wp_bind, wp_modify]
  exact ⟨trivial, wp_update (h.drop order.id h.1 rfl) (by decide) fun hst => absurd hst (by decide)⟩

/-- What a snapshot that meets the condition leaves to do: of the tracked orders those in `gone` have
disappeared, each of them filled, and the others are the listed ones. -/
structure Syncing (live_map : Orders) (gone : List String) (s : Sys Books) : Prop where
  live : Live s
  nodup : gone.Nodup
  tracked : ∀ id ∈ gone, id ∈ s.om.open_orders.keys ∧ id ∈ s.env.filled
  listed : ∀ id ∈ live_map.keys, id ∈ s.om.open_orders.keys ∧ id ∉ gone

/-- **The loop over the orders that have disappeared**: one by one they leave the cache and are
recorded as filled, which they were. -/
theorem wp_gone (live_map : Orders) {gone : List String} (h : Syncing live_map gone s) :
    wp served apart (fun _ => Syncing live_map [])
      (Prog.forEach gone fun oid => do
        OrderManager.del_open_order oid
        ask (.update_order_status oid "filled")) s := by
  refine wp_forEach (Syncing live_map) (fun oid l s h => ?_) (fun s h => h) h
  obtain ⟨hoid, hl⟩ := List.nodup_cons.mp h.nodup
  obtain ⟨htracked, hfilled⟩ := h.tracked oid List.mem_cons_self
  unfold OrderManager.del_open_order
  simp only [bind_eq, wp_bind, wp_read, thenPost, if_pos htracked, wp_modify]
  refine ⟨trivial, (wp_ask _).mpr ⟨trivial, fun s1 h1 => ⟨trivial, fun s2 h2 => ?_⟩⟩⟩
  have hbehind := (h.live.drop oid h.live.1 rfl :
    Behind oid { s with om := { s.om with open_orders := s.om.open_orders.erase oid } }).outside h1
  have hlive := hbehind.update (by decide : "filled" ≠ "open") fun _ => h1.filled hfilled
  have hom : s2.om.open_orders = s.om.open_orders.erase oid :=
    congrArg OrderManager.open_orders (h2.om.trans h1.om)
  refine ⟨hlive.outside h2, hl, fun k hk => ?_, fun k hk => ?_⟩
  · obtain ⟨hin, hf⟩ := h.tracked k (List.mem_cons_of_mem _ hk)
    rw [hom, Keyed.mem_keys_erase]
    exact ⟨⟨hin, fun he => hoid (he ▸ hk)⟩, h2.filled (h1.filled hf)⟩
  · obtain ⟨hin, hnot⟩ := h.listed k hk
    rw [List.mem_cons, not_or] at hnot
    rw [hom, Keyed.mem_keys_erase]
    exact ⟨⟨hin, hnot.1⟩, hnot.2⟩

/-- What a snapshot that meets the condition leaves to do. -/
theorem syncing_of_known (h : Live s) (ho : Outside s s')
    (hk : (∀ id ∈ s.env.live.keys, id ∈ s.om.open_orders.keys) ∧
      ∀ id ∈ s.om.open_orders.keys, id ∉ s.env.live.keys → id ∈ s.env.filled)
    {live_map : Orders} (hmap : live_map.keys = s.env.live.keys) :
    Syncing live_map (s'.om.open_orders.keys.filter fun oid => decide (oid ∉ live_map.keys)) s' := by
  refine ⟨h.outside ho, s'.om.open_orders.nodup.filter _, fun id hid => ?_, fun id hid => ?_⟩
  · rw [List.mem_filter, decide_eq_true_eq, hmap, ho.om] at hid
    exact ⟨ho.om ▸ hid.1, ho.filled (hk.2 id hid.1 hid.2)⟩
  · rw [List.mem_filter, decide_eq_true_eq, ho.om]
    exact ⟨hk.1 id (hmap ▸ hid), fun hn => hn.2 hid⟩

/-- **`_sync_open_orders`** keeps the agreement, as the snapshot lists tracked orders only and
misses only filled ones. -/
theorem wp_sync_body (h : Live s) :
    wp served apart (fun _ => Live) OrderManager.sync_body s := by
  unfold OrderManager.sync_body
  rw [bind_eq, wp_bind, wp_ask]
  refine ⟨trivial, fun s1 h1 => ⟨trivial, fun s2 h2 => ?_⟩⟩
  have hs1 := h.outside h1
  rcases guarded_fetch Known s1 with hx | ⟨hx, hknown, hf⟩
  · change served .fetch_open_orders s1 = _ at hx
    rw [hx] at h2 ⊢
    exact hs1.outside h2
  · change served .fetch_open_orders s1 = _ at hx
    rw [hx] at h2 ⊢
    have hsync := syncing_of_known hs1 h2 (hknown hf) (keys_live_map _)
    simp only [thenPost, bind_eq, wp_bind, wp_read]
    refine wp_mono (fun x s3 h3 => ?_) (wp_gone _ hsync)
    cases x with
    | error e => exact h3.live
    | ok _ =>
      exact wp_add_tracked trivial h3.live fun order ho => (h3.listed _ (Keyed.key_mem ho)).1

/-- A tracked order gets its row. -/
theorem Live.insert (h : Live s) {order : Order} (hst : order.status = "open")
    (ho : Outside (OrderManager.tracking order s) s') :
    Live { s' with env := { s'.env with rows := s'.env.rows.set (order.id, order.status) } } := by
  have hom : s'.om = OrderManager.track order s.clock s.om := ho.om
  have hrows : s'.env.rows = s.env.rows := ho.rows
  refine ⟨?_, fun k => ?_, fun k hk => ?_⟩
  · rw [hom]
    exact h.1
  · simp only [hom, hrows, OrderManager.track, Keyed.mem_keys_set, Keyed.mem_set, h.2.tracked k, hst,
      Prod.mk.injEq, and_true]
    by_cases he : k = order.id
    · simp [he]
    · simp [he]
  · simp only [hrows, Keyed.mem_set, Prod.mk.injEq, hst] at hk
    rcases hk with ⟨-, hst⟩ | ⟨hk, -⟩
    · exact absurd hst (by decide)
    · exact ho.filled (h.2.filled k hk)

/-- **`_place_one`** keeps the agreement: a created order is open, tracked, and gets an open row. -/
theorem wp_place_live (level : OrderManager.Level) (h : Live s) :
    wp served apart (fun _ => Live)
      (OrderManager.place_live level.1 level.2.1 level.2.2) s := by
  refine Keeps.tryCatch ?_ (fun _ => Keeps.done _) s h
  intro s h
  rw [bind_eq, wp_bind, wp_ask]
  refine ⟨trivial, fun s1 h1 => ⟨trivial, fun s2 h2 => ?_⟩⟩
  have hs2 := (h.outside h1).outside ((outside_guarded rfl s1).trans h2)
  rcases guarded_create Known level.1 level.2.1 level.2.2 s1 with hx | ⟨hx, hknown, hf, -⟩
  · change served (.create_limit_order ..) s1 = _ at hx
    rw [hx]
    exact hs2
  · change served (.create_limit_order ..) s1 = _ at hx
    rw [hx]
    simp only [thenPost, bind_eq, wp_bind, wp_modify]
    refine ⟨trivial, (wp_ask _).mpr ⟨trivial, fun s3 h3 => ⟨trivial, fun s4 h4 => ?_⟩⟩⟩
    exact (hs2.insert (hknown hf) h3).outside h4

theorem keeps_diff_and_repost (grid : OrderGrid) :
    Keeps served apart Live (OrderManager.diff_and_repost grid) := by
  refine OrderManager.keeps_diff_and_repost ?_ keeps_cancel_one (fun level => ?_)
    (fun grid s h => ⟨trivial, h.1, h.2.tracked, h.2.filled⟩) grid
  · exact OrderManager.keeps_sync_open_orders (keeps_ask rfl) fun s h _ => wp_sync_body h
  · refine OrderManager.keeps_place_one (keeps_ask rfl) level (fun s h hd => ?_) fun s h _ =>
      wp_place_live level h
    exact absurd (h.1.symm.trans hd) Bool.false_ne_true

/-- The rows of a cancelled cache: those in `left` are still open. -/
structure Clearing (left : List String) (s : Sys Books) : Prop where
  live : s.om.dry_run = false
  nodup : left.Nodup
  tracked : ∀ id, id ∈ left ↔ (id, "open") ∈ s.env.rows
  filled : ∀ id, (id, "filled") ∈ s.env.rows → id ∈ s.env.filled

theorem Clearing.outside {left : List String} (h : Clearing left s) (ho : Outside s s') :
    Clearing left s' := by
  refine ⟨ho.om ▸ h.live, h.nodup, fun k => ?_, fun k hk => ?_⟩
  · rw [ho.rows]
    exact h.tracked k
  · rw [ho.rows] at hk
    exact ho.filled (h.filled k hk)

/-- One row of a cancelled cache is written. -/
theorem Clearing.update {id : String} {left : List String} (h : Clearing (id :: left) s) :
    Clearing left { s with env :=
      { s.env with rows := update_order_status s.env.rows id "canceled" } } := by
  obtain ⟨hid, hl⟩ := List.nodup_cons.mp h.nodup
  refine ⟨h.live, hl, fun k => ?_, fun k hk => ?_⟩
  · have hmem := h.tracked k
    rw [List.mem_cons] at hmem
    simp only [mem_update, ← hmem]
    constructor
    · exact fun hk => Or.inl ⟨Or.inr hk, fun he => hid (he ▸ hk)⟩
    · rintro (⟨hk | hk, hne⟩ | ⟨-, hst, -⟩)
      · exact absurd hk hne
      · exact hk
      · exact absurd hst (by decide)
  · rcases mem_update.mp hk with hk | ⟨-, hst, -⟩
    · exact h.filled k hk.1
    · exact absurd hst (by decide)

/-- **`cancel_all`** keeps the agreement: the cache is cleared, and the row of each order that was
in it is no open one any more. -/
theorem keeps_cancel_all : Keeps served apart Live OrderManager.cancel_all := by
  unfold OrderManager.cancel_all
  refine Keeps.bind ?_ fun _ => ?_
  · unfold OrderManager.cancel_on_exchange
    refine Keeps.read_bind fun s h => ?_
    rw [if_neg (by simp [h.1])]
    exact ((keeps_ask rfl).bind fun _ => keeps_ask rfl) s h
  · refine Keeps.read_bind fun s h => ?_
    rw [bind_eq, wp_bind]
    refine wp_forEach (fun left s => Clearing left s) (fun id left s hs => ?_) (fun s hs => ?_)
      ⟨h.1, s.om.open_orders.nodup, h.2.tracked, h.2.filled⟩
    · refine (wp_ask _).mpr ⟨trivial, fun s1 h1 => ⟨trivial, fun s2 h2 => ?_⟩⟩
      exact ((hs.outside h1).update).outside h2
    · refine ⟨trivial, hs.live, fun k => ?_, hs.filled⟩
      exact hs.tracked k

/-- **The table agrees with the cache** after each call, in every run of a live order manager in
which a snapshot lists only tracked orders and misses only filled ones, and a created order is open:
the open rows are the tracked orders, and only filled orders are recorded as filled. -/
theorem table_agrees {s : Sys Books} (hlive : s.om.dry_run = false) (h : Agreed s) {x : State}
    (hr : Reaches (Fires calls.next) (Serves Known) (boot s) x) (hrest : x.thread () = .rest) :
    Agreed x.shared := by
  have hok := reaches_ok closed (fun _ _ ho => ho)
    (keeps_body keeps_diff_and_repost keeps_cancel_all) ⟨hlive, h⟩ hr
  rw [hrest] at hok
  exact hok.2

/-! ## Two runs -/

theorem agreed_holding_nil : Agreed (holding []) where
  tracked _ := iff_of_false List.not_mem_nil List.not_mem_nil
  filled _ h := absurd h List.not_mem_nil

theorem agreed_holding_own : Agreed (holding [buy_order "own" "open"]) := by
  have hkeys : (holding [buy_order "own" "open"]).om.open_orders.keys = ["own"] := by decide
  have hrows : (holding [buy_order "own" "open"]).env.rows.toList = [("own", "open")] := by decide
  constructor
  · intro id
    rw [hkeys, Keyed.mem_def, hrows, List.mem_singleton, List.mem_singleton, Prod.mk.injEq]
    exact (and_iff_left rfl).symm
  · intro id hid
    rw [Keyed.mem_def, hrows, List.mem_singleton, Prod.mk.injEq] at hid
    exact absurd hid.2 (by decide)

/-- The first order is placed. -/
theorem table_agrees_placed : ∃ s : Sys Books, s.om.open_orders.keys = ["new"] ∧ Agreed s := by
  have h : (play calls.next (Serves Known) (boot (holding [])) (.start () :: turns 5)).any
      (fun x => (x.thread ()).atRest && decide (x.shared.om.open_orders.keys = ["new"])) = true := by
    decide +kernel
  obtain ⟨x, hx, hp⟩ := (Option.any_eq_true _ _).mp h
  obtain ⟨hrest, hkeys⟩ := (Bool.and_eq_true _ _).mp hp
  exact ⟨x.shared, of_decide_eq_true hkeys,
    table_agrees rfl agreed_holding_nil (reaches_of_play hx) (Thread.eq_rest hrest)⟩

/-- **The table disagrees**: of two orders at one price the own one expires and a foreign one
appears, and the next call tracks the foreign one without a row and records the own one as filled. -/
theorem table_disagrees :
    ¬∀ (s : Sys Books) (x : State), s.om.dry_run = false → Agreed s →
      Reaches (Fires calls.next) (fun _ _ => True) (boot s) x → x.thread () = .rest →
      Agreed x.shared := by
  intro hall
  have h : (play calls.next (fun _ _ => True) (boot (holding [buy_order "own" "open"]))
      ([.env (.placed (buy_order "foreign" "open")), .env (.gone "own"), .start ()] ++ turns 3)).any
      (fun x => (x.thread ()).atRest && decide
        (x.shared.om.open_orders.keys = ["foreign"] ∧ x.shared.env.rows.toList = [("own", "filled")])) =
        true := by
    decide +kernel
  obtain ⟨x, hx, hp⟩ := (Option.any_eq_true _ _).mp h
  obtain ⟨hrest, hend⟩ := (Bool.and_eq_true _ _).mp hp
  obtain ⟨hkeys, hrows⟩ := of_decide_eq_true hend
  have hagreed := hall _ x rfl agreed_holding_own (reaches_of_play hx) (Thread.eq_rest hrest)
  have hrow := (hagreed.tracked "foreign").mp (hkeys ▸ List.mem_singleton_self _)
  rw [Keyed.mem_def, hrows] at hrow
  exact absurd hrow (by decide)

end Meridian.OrdersTable
