import Meridian.Core.DiffRepost

/-!
# Reposting twice in dry-run mode

Two `diff_and_repost` calls on one grid, run alone one after the other. The rate limiter and the
database may do what they like with the rest of the state, and the first call may find any open
orders; the database may also raise, and then the call has not returned.

Results:
* `diff_and_repost_settled`: a call that returns leaves the orders settled on the grid: none of them
  is stale and no level that can be placed is missing;
* `diff_and_repost_again`: on settled orders, none of them too old, a call does no more than acquire
  the rate limiter and note the grid;
* `repost_idempotent`: so the second call cancels nothing and places nothing.
-/

namespace Meridian.OrderManager

open Coop

variable {E : Type}

/-- What is awaited leaves the order manager alone and draws no id. -/
structure Aside (s s' : Sys E) : Prop where
  om : s'.om = s.om
  drawn : s'.drawn = s.drawn

/-- A dry run whose simulated orders have the ids that were drawn for them. -/
structure Dry (s : Sys E) : Prop where
  dry_run : s.om.dry_run = true
  drawn : ∀ id ∈ s.om.open_orders.keys, ∀ d, id = "DRY-" ++ d → d ∈ s.drawn

/-- No open order has been so for longer than the limit, so that `_cancel_stale_by_age` cancels
none. -/
def Young (s : Sys E) : Prop :=
  ∀ p ∈ s.om.order_created_at, p.1 ∈ s.om.open_orders.keys →
    s.clock - p.2 ≤ s.om.max_order_age_seconds

/-- The open orders are settled on the grid: no order is stale and no level that can be placed is
missing. -/
structure Settled (grid : OrderGrid) (om : OrderManager) : Prop where
  stale : om.find_stale_orders grid = []
  missing : ∀ level ∈ om.find_missing_levels grid, positive level = false

variable {A : Answer (Sys E) Rep Exn} {s s' : Sys E} {grid : OrderGrid} {om : OrderManager}

theorem Dry.aside (h : Dry s) (hs : Aside s s') : Dry s' where
  dry_run := hs.om ▸ h.dry_run
  drawn := by
    rw [hs.om, hs.drawn]
    exact h.drawn

/-- Orders that leave take no id with them. -/
theorem Dry.mapOm (h : Dry s) {f : OrderManager → OrderManager}
    (hdry : (f s.om).dry_run = s.om.dry_run)
    (hkeys : ∀ id ∈ (f s.om).open_orders.keys, id ∈ s.om.open_orders.keys) : Dry (s.mapOm f) where
  dry_run := hdry.trans h.dry_run
  drawn id hid := h.drawn id (hkeys id hid)

/-- One call, if it returns. -/
theorem wp_ask_aside (hA : ∀ r s, Aside s (A r s).2) {r : Req} {Q : Rep r → Sys E → Prop}
    (hQ : ∀ v s', Aside s s' → Q v s') : wp A alone (onOk Q) (ask r) s := by
  rw [wp_ask_alone]
  cases h : (A r s).1 with
  | ok v => exact hQ v _ (hA r s)
  | error e => trivial

/-! ## Stale orders and missing levels -/

/-- A price is near some listed price of the grid, of either side. -/
def listed (grid : OrderGrid) (price : ℚ) : Bool :=
  (grid.buy_prices ++ grid.sell_prices).any fun desired => near price desired

theorem mem_stale {o : Order} :
    o ∈ om.find_stale_orders grid ↔ o ∈ om.open_orders ∧ listed grid o.price = false := by
  rw [find_stale_orders, List.mem_filter, Bool.not_eq_true']
  exact Iff.rfl

theorem mem_missing {level : Level} :
    level ∈ om.find_missing_levels grid ↔
      level ∈ levels grid ∧ ∀ o ∈ om.open_orders, near o.price level.2.1 = false := by
  rw [find_missing_levels, List.mem_filter, Bool.not_eq_true', has_order_near, List.any_eq_false]
  refine and_congr_right fun _ => ⟨fun h o ho => ?_, fun h price hprice => ?_⟩
  · exact Bool.eq_false_iff.mpr (h o.price (List.mem_map_of_mem ho))
  · obtain ⟨o, ho, rfl⟩ := List.mem_map.mp hprice
    exact Bool.eq_false_iff.mp (h o ho)

/-- The price of a level is a listed one. -/
theorem mem_prices_of_mem_levels {level : Level} (h : level ∈ levels grid) :
    level.2.1 ∈ grid.buy_prices ++ grid.sell_prices := by
  rcases List.mem_append.mp h with h | h
  · obtain ⟨pa, hpa, rfl⟩ := List.mem_map.mp h
    exact List.mem_append_left _ (List.of_mem_zip hpa).1
  · obtain ⟨pa, hpa, rfl⟩ := List.mem_map.mp h
    exact List.mem_append_right _ (List.of_mem_zip hpa).1

/-- An order near a level is not stale. -/
theorem listed_of_near {level : Level} {price : ℚ} (h : level ∈ levels grid)
    (hnear : near price level.2.1 = true) : listed grid price = true :=
  List.any_eq_true.mpr ⟨level.2.1, mem_prices_of_mem_levels h, hnear⟩

/-! ## The first call -/

/-- One cancellation in dry-run mode. -/
theorem wp_cancel_dry (hA : ∀ r s, Aside s (A r s).2) (hs : Dry s) (order : Order) :
    wp A alone
      (onOk fun _ s' => Dry s' ∧ s'.drawn = s.drawn ∧
        s'.om.open_orders = s.om.open_orders.erase order.id)
      (cancel_one order) s := by
  unfold cancel_one
  refine wp_bind_ok (wp_ask_aside hA fun _ s1 h1 => h1) fun _ s1 h1 => ?_
  have hdry1 := hs.aside h1
  rw [bind_eq, wp_bind, wp_read]
  simp only [thenPost, hdry1.dry_run, if_true, bind_eq, wp_bind, wp_modify]
  refine ⟨trivial, wp_ask_aside hA fun _ s2 h2 => ⟨?_, h2.drawn.trans h1.drawn, ?_⟩⟩
  · refine (hdry1.mapOm (f := untrack order.id) rfl fun id hid => ?_).aside h2
    exact (Keyed.mem_keys_erase.mp hid).1
  · rw [h2.om, ← h1.om]
    rfl

theorem wp_age_dry (hA : ∀ r s, Aside s (A r s).2) (hs : Dry s) :
    wp A alone (onOk fun _ s' => Dry s' ∧ s'.drawn = s.drawn) cancel_stale_by_age s := by
  rw [cancel_stale_by_age, bind_eq, wp_bind, wp_read, thenPost]
  split_ifs
  · exact ⟨hs, rfl⟩
  · refine wp_forEach (fun _ s' => Dry s' ∧ s'.drawn = s.drawn) (fun oid _ s' hs' => ?_)
      (fun _ h => h) ⟨hs, rfl⟩
    rw [cancel_aged, bind_eq, wp_bind, wp_read, thenPost]
    split
    · rename_i order _
      refine wp_mono (fun x s'' hx => ?_) (wp_cancel_dry hA hs'.1 order)
      cases x with
      | ok a => exact ⟨hx.1, hx.2.1.trans hs'.2⟩
      | error e => trivial
    · exact hs'

/-- The stale orders go and the others stay. -/
theorem wp_cancel_stale (hA : ∀ r s, Aside s (A r s).2) (hs : Dry s) :
    wp A alone
      (onOk fun _ s' => Dry s' ∧ s'.drawn = s.drawn ∧
        (∀ o ∈ s'.om.open_orders, listed grid o.price = true) ∧
        ∀ o ∈ s.om.open_orders, listed grid o.price = true → o ∈ s'.om.open_orders)
      (Prog.forEach (s.om.find_stale_orders grid) cancel_one) s := by
  refine wp_forEach (fun l s' => Dry s' ∧ s'.drawn = s.drawn ∧
      (∀ o ∈ s'.om.open_orders, listed grid o.price = true ∨ o ∈ l) ∧
      (∀ o ∈ s.om.open_orders, listed grid o.price = true → o ∈ s'.om.open_orders) ∧
      ∀ o ∈ l, o ∈ s.om.open_orders ∧ listed grid o.price = false) ?_ ?_ ?_
  · rintro order l s1 ⟨hdry, hdrawn, hopen, hkept, hstale⟩
    obtain ⟨horder, hunlisted⟩ := hstale order List.mem_cons_self
    refine wp_mono (fun x s2 hx => ?_) (wp_cancel_dry hA hdry order)
    cases x with
    | error e => trivial
    | ok a =>
      obtain ⟨hdry2, hdrawn2, herase⟩ := hx
      refine ⟨hdry2, hdrawn2.trans hdrawn, fun o ho => ?_, fun o ho hlisted => ?_,
        fun o ho => hstale o (List.mem_cons_of_mem _ ho)⟩
      · rw [herase] at ho
        obtain ⟨ho, hid⟩ := Keyed.mem_erase.mp ho
        refine (hopen o ho).imp_right fun hmem => (List.mem_cons.mp hmem).resolve_left fun heq => ?_
        exact hid (congrArg Order.id heq)
      · rw [herase]
        refine Keyed.mem_erase.mpr ⟨hkept o ho hlisted, fun hid => ?_⟩
        rw [Keyed.eq_of_key ho horder hid, hunlisted] at hlisted
        exact Bool.false_ne_true hlisted
  · rintro s1 ⟨hdry, hdrawn, hopen, hkept, -⟩
    exact ⟨hdry, hdrawn, fun o ho => (hopen o ho).resolve_right List.not_mem_nil, hkept⟩
  · refine ⟨hs, rfl, fun o ho => ?_, fun o ho _ => ho, fun o ho => mem_stale.mp ho⟩
    rcases Bool.eq_false_or_eq_true (listed grid o.price) with h | h
    · exact .inl h
    · exact .inr (mem_stale.mpr ⟨ho, h⟩)

/-- One placement in dry-run mode: a new order at the level's price, if it can be placed. It takes the
place of no other order if its id is new. -/
theorem wp_place_one_dry (hA : ∀ r s, Aside s (A r s).2) (hs : Dry s) (level : Level) :
    wp A alone
      (onOk fun _ s' => Dry s' ∧ s.drawn <:+ s'.drawn ∧
        (NewSince s.drawn s'.drawn → ∀ o ∈ s.om.open_orders, o ∈ s'.om.open_orders) ∧
        (∀ o ∈ s'.om.open_orders, o ∈ s.om.open_orders ∨ o.price = level.2.1) ∧
        (positive level = true → ∃ o ∈ s'.om.open_orders, o.price = level.2.1))
      (place_one level) s := by
  unfold place_one
  split_ifs with hskip
  · refine ⟨hs, List.suffix_rfl, fun _ o ho => ho, fun o ho => .inl ho, fun hpos => ?_⟩
    obtain ⟨hprice, hamount⟩ := of_decide_eq_true hpos
    rcases hskip with h | h
    · exact absurd hamount (not_lt.mpr h)
    · exact absurd hprice (not_lt.mpr h)
  · refine wp_bind_ok (wp_ask_aside hA fun _ s1 h1 => h1) fun _ s1 h1 => ?_
    have hdry1 := hs.aside h1
    rw [bind_eq, wp_bind, wp_read, thenPost, if_pos hdry1.dry_run, place_dry, bind_eq, wp_bind,
      wp_read]
    simp only [thenPost, bind_eq, wp_bind, wp_modify]
    set order := s1.om.fake_order ("DRY-" ++ s1.drawId.1) s1.clock level.1 level.2.1 level.2.2
    refine ⟨trivial, ?_⟩
    rw [← wp_bind]
    refine wp_bind_ok (wp_ask_aside hA fun _ s2 h2 => h2) fun _ s2 h2 => ?_
    have hopen : s2.om.open_orders = s.om.open_orders.set order := by
      rw [h2.om, ← h1.om]
      rfl
    have hdrawn : s2.drawn = s1.uuid4 s1.drawn :: s.drawn :=
      h2.drawn.trans (congrArg (List.cons _) h1.drawn)
    have hdry2 : Dry (tracking order s1.drawId.2) := by
      refine ⟨hdry1.dry_run, fun id hid d hd => ?_⟩
      rcases mem_keys_track.mp hid with rfl | hid
      · rw [(String.append_right_inj _).mp hd.symm]
        exact List.mem_cons_self
      · exact List.mem_cons_of_mem _ (hdry1.drawn id hid d hd)
    refine ⟨hdry2.aside h2, hdrawn ▸ List.suffix_cons _ _, fun hnew o ho => ?_, fun o ho => ?_,
      fun _ => ⟨order, ?_, rfl⟩⟩
    · have hid : s1.uuid4 s1.drawn ∉ s.drawn :=
        hnew _ _ (hdrawn ▸ List.suffix_rfl) List.suffix_rfl
      rw [hopen]
      exact Keyed.mem_set.mpr (.inr ⟨ho, fun he => hid (hs.drawn _ (Keyed.key_mem ho) _ he)⟩)
    · rw [hopen] at ho
      rcases Keyed.mem_set.mp ho with rfl | ⟨ho, -⟩
      · exact .inr rfl
      · exact .inl ho
    · rw [hopen]
      exact Keyed.mem_set.mpr (.inl rfl)

/-- The missing levels are placed, those that can be. -/
theorem wp_place_missing (hA : ∀ r s, Aside s (A r s).2) (hs : Dry s) {missing : List Level}
    (hmissing : ∀ level ∈ missing, level ∈ levels grid)
    (hlisted : ∀ o ∈ s.om.open_orders, listed grid o.price = true) :
    wp A alone
      (onOk fun _ s' => Dry s' ∧ (∀ o ∈ s'.om.open_orders, listed grid o.price = true) ∧
        (NewSince s.drawn s'.drawn → (∀ o ∈ s.om.open_orders, o ∈ s'.om.open_orders) ∧
          ∀ level ∈ missing, positive level = true → ∃ o ∈ s'.om.open_orders, o.price = level.2.1))
      (Prog.collect missing place_one) s := by
  refine wp_collect (fun l _ s' => Dry s' ∧ s.drawn <:+ s'.drawn ∧
      (∀ o ∈ s'.om.open_orders, listed grid o.price = true) ∧
      (∀ level ∈ l, level ∈ levels grid) ∧
      (NewSince s.drawn s'.drawn → (∀ o ∈ s.om.open_orders, o ∈ s'.om.open_orders) ∧
        ∀ level ∈ missing, positive level = true →
          level ∈ l ∨ ∃ o ∈ s'.om.open_orders, o.price = level.2.1)) ?_ ?_ ?_
  · rintro level l out s1 ⟨hdry, hdrawn, hopen, hlevels, hplaced⟩
    refine wp_mono (fun x s2 hx => ?_) (wp_place_one_dry hA hdry level)
    have hnext : ∀ a, x = .ok a → Dry s2 ∧ s.drawn <:+ s2.drawn ∧
        (∀ o ∈ s2.om.open_orders, listed grid o.price = true) ∧
        (∀ level ∈ l, level ∈ levels grid) ∧
        (NewSince s.drawn s2.drawn → (∀ o ∈ s.om.open_orders, o ∈ s2.om.open_orders) ∧
          ∀ level ∈ missing, positive level = true →
            level ∈ l ∨ ∃ o ∈ s2.om.open_orders, o.price = level.2.1) := by
      rintro a rfl
      obtain ⟨hdry2, hdrawn2, hkept2, hnew, hplaced2⟩ := hx
      refine ⟨hdry2, hdrawn.trans hdrawn2, fun o ho => ?_,
        fun m hm => hlevels m (List.mem_cons_of_mem _ hm), fun hids => ?_⟩
      · rcases hnew o ho with ho | hprice
        · exact hopen o ho
        · refine listed_of_near (hlevels level List.mem_cons_self) ?_
          rw [hprice]
          exact near_self _
      · -- the ids drawn before this one were new, and so is this one
        obtain ⟨hkept, hplaced⟩ := hplaced (hids.at hdrawn2)
        replace hkept2 := hkept2 (hids.after hdrawn)
        refine ⟨fun o ho => hkept2 o (hkept o ho), fun m hm hpos => ?_⟩
        rcases hplaced m hm hpos with hmem | ⟨o, ho, hprice⟩
        · rcases List.mem_cons.mp hmem with rfl | hmem
          · exact .inr (hplaced2 hpos)
          · exact .inl hmem
        · exact .inr ⟨o, hkept2 o ho, hprice⟩
    match x, hnext with
    | .ok (some b), hnext => exact hnext (some b) rfl
    | .ok none, hnext => exact hnext none rfl
    | .error e, _ => trivial
  · rintro out s1 ⟨hdry, -, hopen, -, hplaced⟩
    exact ⟨hdry, hopen, fun hids => ⟨(hplaced hids).1, fun level hlevel hpos =>
      ((hplaced hids).2 level hlevel hpos).resolve_left List.not_mem_nil⟩⟩
  · exact ⟨hs, List.suffix_rfl, hlisted, hmissing,
      fun _ => ⟨fun o ho => ho, fun level hlevel _ => .inl hlevel⟩⟩

/-- What is listed is not stale, and what is near no open order is not placed. -/
theorem settled_of {om om' : OrderManager}
    (hlisted : ∀ o ∈ om'.open_orders, listed grid o.price = true)
    (hkept : ∀ o ∈ om.open_orders, listed grid o.price = true → o ∈ om'.open_orders)
    (hplaced : ∀ level ∈ om.find_missing_levels grid, positive level = true →
      ∃ o ∈ om'.open_orders, o.price = level.2.1) : Settled grid om' where
  stale := by
    refine List.eq_nil_iff_forall_not_mem.mpr fun o ho => ?_
    obtain ⟨ho, hunlisted⟩ := mem_stale.mp ho
    exact Bool.false_ne_true (hunlisted.symm.trans (hlisted o ho))
  missing level hlevel := by
    obtain ⟨hlevel, hfar⟩ := mem_missing.mp hlevel
    refine Bool.eq_false_iff.mpr fun hpos => ?_
    have hmissing : level ∈ om.find_missing_levels grid := by
      refine mem_missing.mpr ⟨hlevel, fun o ho => Bool.eq_false_iff.mpr fun hnear => ?_⟩
      -- an order that was near is listed, so it is still open
      have hopen := hkept o ho (listed_of_near hlevel hnear)
      exact Bool.false_ne_true ((hfar o hopen).symm.trans hnear)
    obtain ⟨o, ho, hprice⟩ := hplaced level hmissing hpos
    have hnear := hfar o ho
    rw [hprice, near_self] at hnear
    exact Bool.false_ne_true hnear.symm

/-- **A call that returns** leaves the orders settled on its grid, if the ids it drew were new. -/
theorem diff_and_repost_settled (hA : ∀ r s, Aside s (A r s).2) (hs : Dry s) :
    wp A alone (onOk fun _ s' => s'.om.dry_run = true ∧
      (NewSince s.drawn s'.drawn → Settled grid s'.om)) (diff_and_repost grid) s := by
  have hsync : wp A alone (onOk fun _ s' => Dry s' ∧ s'.drawn = s.drawn) sync_open_orders s := by
    refine wp_bind_ok (wp_ask_aside hA fun _ s1 h1 => (⟨hs.aside h1, h1.drawn⟩ : _ ∧ _))
      fun _ s1 h1 => ?_
    rw [bind_eq, wp_bind, wp_read, thenPost, if_pos h1.1.dry_run]
    exact h1
  refine wp_bind_ok hsync fun _ s1 h1 => wp_bind_ok (wp_age_dry hA h1.1) fun _ s2 h2 => ?_
  rw [bind_eq, wp_bind, wp_read, thenPost]
  refine wp_bind_ok (wp_cancel_stale hA h2.1) fun _ s3 hs3 => ?_
  obtain ⟨h3, hdrawn3, hlisted3, hkept3⟩ := hs3
  have hdrawn : s3.drawn = s.drawn := hdrawn3.trans (h2.2.trans h1.2)
  refine wp_bind_ok (wp_place_missing hA h3 (fun level h => (mem_missing.mp h).1) hlisted3)
    fun placed s4 hs4 => ?_
  obtain ⟨h4, hlisted4, hplaced4⟩ := hs4
  rw [hdrawn] at hplaced4
  have hsettled : NewSince s.drawn s4.drawn → Settled grid s4.om := fun hids =>
    settled_of hlisted4 (fun o ho hlisted => (hplaced4 hids).1 o (hkept3 o ho hlisted))
      (hplaced4 hids).2
  rw [bind_eq, wp_bind, wp_modify]
  exact ⟨trivial, h4.dry_run, fun hids => ⟨(hsettled hids).stale, (hsettled hids).missing⟩⟩

/-! ## The second call -/

theorem run_sync_dry (hA : ∀ r s, Aside s (A r s).2) (hdry : s.om.dry_run = true) :
    (sync_open_orders : Co E Unit).run A s = A .acquire s := by
  have haside := hA .acquire s
  rw [sync_open_orders, bind_eq, run_bind, run_call]
  cases h : A .acquire s with
  | mk x s1 =>
    rw [h] at haside
    cases x with
    | error e => rfl
    | ok u => exact congrArg (fun p => Prog.run A p s1) (if_pos (haside.om ▸ hdry))

/-- Where no order is too old none is cancelled for it. -/
theorem run_age_young (hyoung : 0 < s.om.max_order_age_seconds → Young s) :
    (cancel_stale_by_age : Co E Unit).run A s = (.ok (), s) := by
  rw [cancel_stale_by_age, bind_eq, run_bind]
  change (if s.om.max_order_age_seconds ≤ 0 then (pure () : Co E Unit)
    else Prog.forEach (s.om.stale_ids s.clock) cancel_aged).run A s = (.ok (), s)
  split_ifs with hoff
  · rfl
  · have hnone : s.om.stale_ids s.clock = [] := by
      rw [stale_ids, List.map_eq_nil_iff, List.filter_eq_nil_iff]
      intro p hp hold
      obtain ⟨hage, hopen⟩ := of_decide_eq_true hold
      exact absurd hage (not_lt.mpr (hyoung (not_le.mp hoff) p hp hopen))
    rw [hnone]
    rfl

/-- Levels that cannot be placed are passed over. -/
theorem run_collect_skip {missing : List Level}
    (h : ∀ level ∈ missing, positive level = false) :
    (Prog.collect missing (place_one : Level → Co E (Option Order))).run A s = (.ok [], s) := by
  induction missing with
  | nil => rfl
  | cons level missing ih =>
    have hskip : level.2.2 ≤ 0 ∨ level.2.1 ≤ 0 := by
      have hneg := of_decide_eq_false (h level List.mem_cons_self)
      rcases not_and_or.mp hneg with hprice | hamount
      · exact .inr (not_lt.mp hprice)
      · exact .inl (not_lt.mp hamount)
    have hone : (place_one level : Co E (Option Order)).run A s = (.ok none, s) := by
      rw [place_one, if_pos hskip]
      rfl
    rw [Prog.collect, run_bind, hone]
    dsimp only
    rw [run_bind, ih fun m hm => h m (List.mem_cons_of_mem _ hm)]
    rfl

/-- **On settled orders**, none of them too old, a call acquires the rate limiter and notes the
grid. -/
theorem diff_and_repost_again (hA : ∀ r s, Aside s (A r s).2) (hdry : s.om.dry_run = true)
    (hsettled : Settled grid s.om)
    (hyoung : 0 < s.om.max_order_age_seconds → Young (A .acquire s).2) :
    (diff_and_repost grid).run A s =
      match A .acquire s with
      | (.ok _, s') => (.ok [], s'.mapOm fun om => { om with last_grid := some grid })
      | (.error e, s') => (.error e, s') := by
  have haside := hA .acquire s
  rw [diff_and_repost, bind_eq, run_bind, run_sync_dry hA hdry]
  cases h : A .acquire s with
  | mk x s1 =>
    rw [h] at haside hyoung
    cases x with
    | error e => rfl
    | ok u =>
      dsimp only at haside hyoung ⊢
      rw [← haside.om] at hsettled hyoung
      rw [bind_eq, run_bind, run_age_young hyoung]
      dsimp only
      rw [bind_eq, run_bind, show Prog.run A Prog.read s1 = (.ok s1, s1) from rfl]
      dsimp only
      rw [hsettled.stale, bind_eq, run_bind, Prog.forEach, Prog.run]
      dsimp only
      rw [bind_eq, run_bind, run_collect_skip hsettled.missing]
      rfl

/-- **Dry-run reposting is idempotent.** Once a call has returned, and none of the ids it drew had
been drawn before, a second one on the same grid, with no order too old by then, cancels nothing,
places nothing and leaves the open orders. -/
theorem repost_idempotent (hA : ∀ r s, Aside s (A r s).2) (grid : OrderGrid) (s : Sys E)
    (hs : Dry s) {placed : List Order} {s1 s2 : Sys E}
    (hfirst : (diff_and_repost grid).run A s = (.ok placed, s1))
    (hnew : NewSince s.drawn s1.drawn) (hlater : s2.om = s1.om)
    (hyoung : 0 < s2.om.max_order_age_seconds → Young (A .acquire s2).2) :
    ((diff_and_repost grid).run A s2).2.om.open_orders = s1.om.open_orders ∧
    (diff_and_repost grid).run A s2 =
      match A .acquire s2 with
      | (.ok _, s') => (.ok [], s'.mapOm fun om => { om with last_grid := some grid })
      | (.error e, s') => (.error e, s') := by
  have hpost : onOk (fun _ s' => s'.om.dry_run = true ∧
      (NewSince s.drawn s'.drawn → Settled grid s'.om))
      ((diff_and_repost grid).run A s).1 ((diff_and_repost grid).run A s).2 :=
    wp_alone.mp (diff_and_repost_settled hA hs)
  rw [hfirst] at hpost
  obtain ⟨hdry, hsettled⟩ := hpost
  rw [← hlater] at hdry hsettled
  have hrun := diff_and_repost_again hA hdry (hsettled hnew) hyoung
  have haside := hA .acquire s2
  refine ⟨?_, hrun⟩
  rw [hrun, ← hlater]
  cases h : A .acquire s2 with
  | mk x s3 =>
    rw [h] at haside
    have hopen : s3.om.open_orders = s2.om.open_orders := by rw [haside.om]
    cases x with
    | ok u => exact hopen
    | error e => exact hopen

/-- What a quiet exchange and database leave alone. -/
theorem aside_quiet (r : Req) (s : Sys Venue) : Aside s (World.quiet.answer r s).2 := by
  have hreached := smooth_quiet.reached r s
  exact ⟨hreached.om, hreached.drawn⟩

/-- An order far off the grid's level is replaced; the second call leaves its replacement. -/
theorem repost_idempotent_replaced :
    let s : Sys Venue := holding true { sell_at_100 with price := 50 }
    let s1 := ((diff_and_repost buy_at_100).run World.quiet.answer s).2
    s1.om.open_orders.toList.map Order.price = [100] ∧
    ((diff_and_repost buy_at_100).run World.quiet.answer s1).2.om.open_orders =
      s1.om.open_orders := by
  intro s s1
  have hs : Dry s := by
    refine ⟨rfl, fun id hid d hd => ?_⟩
    rw [List.mem_singleton.mp hid] at hd
    have hlen := congrArg String.length hd
    have hone : (sell_at_100.id).length = 1 := by decide
    have hfour : "DRY-".length = 4 := by decide
    rw [String.length_append, hfour] at hlen
    exact absurd (hone.symm.trans hlen) (by omega)
  have hok : ((diff_and_repost buy_at_100).run World.quiet.answer s).1.toBool = true := by
    decide +kernel
  obtain ⟨placed, hplaced⟩ : ∃ placed,
      ((diff_and_repost buy_at_100).run World.quiet.answer s).1 = .ok placed := by
    cases h : ((diff_and_repost buy_at_100).run World.quiet.answer s).1 with
    | ok placed => exact ⟨placed, rfl⟩
    | error e =>
      rw [h] at hok
      exact absurd hok Bool.false_ne_true
  have hfirst : (diff_and_repost buy_at_100).run World.quiet.answer s = (.ok placed, s1) :=
    Prod.ext hplaced rfl
  have hprices : s1.om.open_orders.toList.map Order.price = [100] := by decide +kernel
  have hdistinct : s1.drawn.Nodup := by decide +kernel
  have hyoung : ∀ p ∈ (World.quiet.answer .acquire s1).2.om.order_created_at.toList,
      (World.quiet.answer .acquire s1).2.clock - p.2 ≤
        (World.quiet.answer .acquire s1).2.om.max_order_age_seconds := by decide +kernel
  clear_value s1
  exact ⟨hprices, (repost_idempotent aside_quiet buy_at_100 s hs hfirst (.of_nodup hdistinct) rfl
    fun _ p hp _ => hyoung p hp).1⟩

end Meridian.OrderManager
