import Mathlib.Data.List.Nodup
import Mathlib.Data.Rat.Defs
import Meridian.Lib.BoundedQueue
import Meridian.Lib.Run

/-!
# `LiveFeed`: the events sent to the WebSocket clients

Model of `api/websocket.py` (24-113) and of `websocket_endpoint` of `api/routes.py` (306-331). Nothing is
awaited while the lock is held, so `subscribe`, `unsubscribe`, `broadcast` and `emit` are one step each;
the endpoint of a client waits between a message it takes and the next, and its sends may fail. The data
of an event is left open.

Results:
* `client_stream`: in every run, what a client that is still registered was sent, holds or has unread is
  what was emitted since it connected, once and in order, except the events of no `EventType` that found
  its queue full (`taken`). One that is not registered any more is cut off at one action, where its
  endpoint failed or a typed event found a hundred unread messages;
* `sent_prefix`: so the typed events a client is sent are the first that were broadcast since it connected.
-/

namespace Meridian.LiveFeed

section Model

variable {D : Type*}

/-- `EventType` (`websocket.py:24-35`). -/
inductive EventType where
  | TICK_UPDATE
  | ORDER_PLACED
  | ORDER_FILLED
  | ORDER_CANCELED
  | INVENTORY_UPDATE
  | AGGRESSIVENESS_CHANGE
  | EMERGENCY_STOP
  | HEARTBEAT
  | CONFIG_RELOADED
  | BOT_STARTED
  | BOT_STOPPED
  deriving DecidableEq

namespace EventType

def value : EventType → String
  | TICK_UPDATE => "tick_update"
  | ORDER_PLACED => "order_placed"
  | ORDER_FILLED => "order_filled"
  | ORDER_CANCELED => "order_canceled"
  | INVENTORY_UPDATE => "inventory_update"
  | AGGRESSIVENESS_CHANGE => "aggressiveness_change"
  | EMERGENCY_STOP => "emergency_stop"
  | HEARTBEAT => "heartbeat"
  | CONFIG_RELOADED => "config_reloaded"
  | BOT_STARTED => "bot_started"
  | BOT_STOPPED => "bot_stopped"

def members : List EventType :=
  [TICK_UPDATE, ORDER_PLACED, ORDER_FILLED, ORDER_CANCELED, INVENTORY_UPDATE, AGGRESSIVENESS_CHANGE,
    EMERGENCY_STOP, HEARTBEAT, CONFIG_RELOADED, BOT_STARTED, BOT_STOPPED]

/-- `EventType(event_name)` -/
def of_name (event_name : String) : Option EventType :=
  members.find? fun event_type => event_type.value == event_name

end EventType

/-- What `json.dumps` is given. -/
structure Message (D : Type*) where
  event : String
  data : D
  timestamp : ℚ

/-- `LiveFeed` (`websocket.py:38-46`). A queue has the number of the call that made it. -/
structure Feed (D : Type*) where
  clients : List ℕ := []
  nodup : clients.Nodup := by exact List.nodup_nil
  queue : ℕ → BoundedQueue (Message D) 100 := fun _ => .empty
  made : ℕ := 0

namespace Feed

/-- `subscribe` (`websocket.py:53-59`). -/
def subscribe (f : Feed D) : ℕ × Feed D :=
  (f.made,
    { clients := f.clients.insert f.made
      nodup := f.nodup.insert
      queue := Function.update f.queue f.made .empty
      made := f.made + 1 })

/-- `unsubscribe` (`websocket.py:61-65`). -/
def unsubscribe (f : Feed D) (q : ℕ) : Feed D :=
  { f with clients := f.clients.erase q, nodup := f.nodup.erase q }

/-- `q.put_nowait(message)` for these queues: the queues, and those that were full. -/
def put_all (message : Message D) :
    List ℕ → (ℕ → BoundedQueue (Message D) 100) → (ℕ → BoundedQueue (Message D) 100) × List ℕ
  | [], queue => (queue, [])
  | q :: qs, queue =>
    match (queue q).put_nowait message with
    | some queue' => put_all message qs (Function.update queue q queue')
    | none =>
      let r := put_all message qs queue
      (r.1, q :: r.2)

/-- `broadcast` (`websocket.py:71-89`). -/
def broadcast (f : Feed D) (event_type : EventType) (data : D) (now : ℚ) : Feed D :=
  if f.clients = [] then f
  else
    let r := put_all ⟨event_type.value, data, now⟩ f.clients f.queue
    { f with
      clients := r.2.foldl List.erase f.clients
      nodup := by
        rw [← List.diff_eq_foldl]
        exact f.nodup.diff
      queue := r.1 }

/-- `emit` (`websocket.py:91-113`). -/
def emit (f : Feed D) (event_name : String) (data : D) (now : ℚ) : Feed D :=
  match EventType.of_name event_name with
  | some event_type => f.broadcast event_type data now
  | none =>
    if f.clients = [] then f
    else { f with queue := (put_all ⟨event_name, data, now⟩ f.clients f.queue).1 }

/-- `q.get()`, when it returns. -/
def get (f : Feed D) (q : ℕ) : Option (Message D × Feed D) :=
  (f.queue q).get_nowait.map fun r => (r.1, { f with queue := Function.update f.queue q r.2 })

end Feed

/-- Where a `websocket_endpoint` is. -/
inductive Endpoint (D : Type*) where
  | waiting
  | sending (message : Message D)
  | closed (lost : Option (Message D))

/-- The message an endpoint has taken and not sent. -/
def Endpoint.hand : Endpoint D → Option (Message D)
  | waiting => none
  | sending message => some message
  | closed lost => lost

/-- The feed, and the endpoint of each of its queues with what it has sent of them. -/
structure System (D : Type*) where
  feed : Feed D := {}
  endpoint : ℕ → Endpoint D := fun _ => .closed none
  sent : ℕ → List (Message D) := fun _ => []

inductive Action (D : Type*) where
  | connect
  | receive (q : ℕ)
  | sent (q : ℕ)
  | heartbeat (q : ℕ)
  | fail (q : ℕ)
  | broadcast (event_type : EventType) (data : D) (now : ℚ)
  | emit (event_name : String) (data : D) (now : ℚ)

/-- One step of `websocket_endpoint` (`routes.py:306-331`), or a call that emits. A send that raises
unsubscribes the queue. -/
def next (s : System D) : Action D → Option (System D)
  | .connect =>
    let r := s.feed.subscribe
    some { s with feed := r.2, endpoint := Function.update s.endpoint r.1 .waiting }
  | .receive q =>
    match s.endpoint q, s.feed.get q with
    | .waiting, some r =>
      some { s with feed := r.2, endpoint := Function.update s.endpoint q (.sending r.1) }
    | _, _ => none
  | .sent q =>
    match s.endpoint q with
    | .sending message =>
      some
        { s with
          endpoint := Function.update s.endpoint q .waiting
          sent := Function.update s.sent q (s.sent q ++ [message]) }
    | _ => none
  | .heartbeat q =>
    match s.endpoint q with
    | .waiting => some s
    | _ => none
  | .fail q =>
    match s.endpoint q with
    | .closed _ => none
    | endpoint =>
      some
        { s with
          feed := s.feed.unsubscribe q
          endpoint := Function.update s.endpoint q (.closed endpoint.hand) }
  | .broadcast event_type data now => some { s with feed := s.feed.broadcast event_type data now }
  | .emit event_name data now => some { s with feed := s.feed.emit event_name data now }

/-- These actions, one after the other, from the start. -/
def run (as : List (Action D)) : Option (System D) := as.foldlM next {}

end Model

/-! ## What is emitted -/

section Emitted

variable {D : Type*}

/-- The message of an action that emits one. -/
def Action.message : Action D → Option (Message D)
  | .broadcast event_type data now => some ⟨event_type.value, data, now⟩
  | .emit event_name data now => some ⟨event_name, data, now⟩
  | _ => none

/-- The event of a message is one of `EventType`. -/
def Message.typed (m : Message D) : Bool := (EventType.of_name m.event).isSome

/-- The messages of a run. -/
def posts (as : List (Action D)) : List (Message D) := as.filterMap Action.message

/-- The connects of a run. -/
def connects (as : List (Action D)) : ℕ := as.countP fun a => match a with | .connect => true | _ => false

/-- What a client was sent, its endpoint holds and it has unread. -/
def stream (s : System D) (q : ℕ) : List (Message D) :=
  s.sent q ++ (s.endpoint q).hand.toList ++ (s.feed.queue q).items

/-- The queue of a client is full after these actions. -/
def full_after (as : List (Action D)) (q : ℕ) : Bool := (run as).any fun s => (s.feed.queue q).full

/-- The message of an action, unless it is one of no `EventType` that finds the queue of the client
full; `before` are the actions before it. -/
def Action.taken (before : List (Action D)) (q : ℕ) (a : Action D) : Option (Message D) :=
  a.message.filter fun m => m.typed || !full_after before q

/-- **What a registered client gets** of these actions: every message in order, without those of no
`EventType` that find its queue full. -/
def taken (before : List (Action D)) (q : ℕ) : List (Action D) → List (Message D)
  | [] => []
  | a :: as => (a.taken before q).toList ++ taken (before ++ [a]) q as

theorem taken_concat (q : ℕ) (a : Action D) : ∀ before as : List (Action D),
    taken before q (as ++ [a]) = taken before q as ++ (a.taken (before ++ as) q).toList
  | before, [] => by simp [taken]
  | before, b :: as => by
    rw [List.cons_append, taken, taken_concat q a, taken, List.append_assoc, List.append_assoc,
      List.singleton_append]

/-- Every typed message is taken. -/
theorem filter_typed_taken (q : ℕ) : ∀ before as : List (Action D),
    (taken before q as).filter Message.typed = (posts as).filter Message.typed
  | _, [] => rfl
  | before, a :: as => by
    have hposts : posts (a :: as) = a.message.toList ++ posts as := by
      rw [posts, posts, List.filterMap_cons]
      cases a.message <;> rfl
    rw [taken, hposts, List.filter_append, List.filter_append, filter_typed_taken q]
    congr 1
    unfold Action.taken
    cases a.message with
    | none => rfl
    | some m => cases hm : m.typed <;> cases full_after before q <;> simp [Option.filter_some, hm]

theorem typed_value (event_type : EventType) : EventType.of_name event_type.value = some event_type := by
  cases event_type <;> decide

end Emitted

/-! ## The queues -/

section Queues

variable {D : Type*} {f : Feed D} {m : Message D} {q : ℕ} {queue : ℕ → BoundedQueue (Message D) 100}

/-- A message put into these queues is in each that had room, and nothing else changed. -/
theorem put_all_spec (m : Message D) (q : ℕ) : ∀ {qs : List ℕ}
    (queue : ℕ → BoundedQueue (Message D) 100), qs.Nodup →
      ((Feed.put_all m qs queue).1 q = if q ∈ qs then (queue q).offer m else queue q) ∧
        (q ∈ (Feed.put_all m qs queue).2 ↔ q ∈ qs ∧ (queue q).full = true)
  | [], queue, _ => by simp [Feed.put_all]
  | q' :: qs, queue, h => by
    obtain ⟨hq', hqs⟩ := List.nodup_cons.mp h
    rw [Feed.put_all]
    cases hput : (queue q').put_nowait m with
    | none =>
      have hfull : (queue q').full = true := BoundedQueue.put_nowait_eq_none.mp hput
      obtain ⟨hqueue, hdead⟩ := put_all_spec m q queue hqs
      constructor
      · rw [hqueue]
        by_cases h : q = q'
        · subst h
          simp [hq', BoundedQueue.offer_of_full hfull]
        · simp [h]
      · simp only [List.mem_cons, hdead]
        by_cases h : q = q'
        · subst h
          simp [hfull]
        · simp [h]
    | some queue' =>
      have hoffer : (queue q').offer m = queue' := by rw [BoundedQueue.offer, hput]
      have hfull : ¬(queue q').full = true := fun h => by
        rw [BoundedQueue.put_nowait_eq_none.mpr h] at hput
        cases hput
      obtain ⟨hqueue, hdead⟩ := put_all_spec m q (Function.update queue q' queue') hqs
      by_cases h : q = q'
      · subst h
        simp [hqueue, hdead, hq', hoffer, hfull]
      · simp [hqueue, hdead, h]

/-- **A broadcast** reaches the clients that have room, and keeps them. -/
theorem queue_broadcast (event_type : EventType) (data : D) (now : ℚ) :
    (f.broadcast event_type data now).queue q =
      if q ∈ f.clients then (f.queue q).offer ⟨event_type.value, data, now⟩ else f.queue q := by
  rw [Feed.broadcast]
  split_ifs with hnone hq hq
  · rw [hnone] at hq
    exact nomatch hq
  · rfl
  · exact (put_all_spec _ q _ f.nodup).1.trans (if_pos hq)
  · exact (put_all_spec _ q _ f.nodup).1.trans (if_neg hq)

theorem mem_clients_broadcast (event_type : EventType) (data : D) (now : ℚ) :
    q ∈ (f.broadcast event_type data now).clients ↔ q ∈ f.clients ∧ (f.queue q).full = false := by
  rw [Feed.broadcast]
  split_ifs with hnone
  · simp [hnone]
  · simp only
    rw [← List.diff_eq_foldl, f.nodup.mem_sdiff_iff, (put_all_spec _ q _ f.nodup).2]
    cases (f.queue q).full <;> simp

theorem made_broadcast (event_type : EventType) (data : D) (now : ℚ) :
    (f.broadcast event_type data now).made = f.made := by
  rw [Feed.broadcast]
  split_ifs <;> rfl

/-- An event whose name is not one of `EventType` is for the clients that have room, and drops none. -/
theorem emit_raw {event_name : String} (h : EventType.of_name event_name = none) (data : D) (now : ℚ) :
    (f.emit event_name data now).clients = f.clients ∧ (f.emit event_name data now).made = f.made ∧
      (f.emit event_name data now).queue q =
        if q ∈ f.clients then (f.queue q).offer ⟨event_name, data, now⟩ else f.queue q := by
  rw [Feed.emit, h]
  simp only
  by_cases hnone : f.clients = []
  · simp [hnone]
  · rw [if_neg hnone]
    exact ⟨rfl, rfl, (put_all_spec _ q _ f.nodup).1⟩

theorem value_of_name {event_name : String} {event_type : EventType}
    (h : EventType.of_name event_name = some event_type) : event_type.value = event_name :=
  eq_of_beq (List.find?_some (p := fun t : EventType => t.value == event_name) h)

theorem emit_typed {event_name : String} {event_type : EventType}
    (h : EventType.of_name event_name = some event_type) (data : D) (now : ℚ) :
    f.emit event_name data now = f.broadcast event_type data now := by
  rw [Feed.emit, h]

end Queues

/-! ## One step, for one client -/

section Step

variable {D : Type*} {s s' : System D} {a : Action D} {q : ℕ}

/-- What an action can do to a client. -/
inductive ClientStep (s s' : System D) (a : Action D) (q : ℕ) : Prop where
  | quiet (ha : a.message = none) (hmem : q ∈ s'.feed.clients ↔ q ∈ s.feed.clients)
      (hstream : stream s' q = stream s q)
  | away (hmem : q ∉ s.feed.clients) (hmem' : q ∉ s'.feed.clients) (hstream : stream s' q = stream s q)
  | posted (m : Message D) (ha : a.message = some m) (hroom : (s.feed.queue q).full = false)
      (hmem : q ∈ s.feed.clients) (hmem' : q ∈ s'.feed.clients)
      (hstream : stream s' q = stream s q ++ [m])
  | skipped (m : Message D) (ha : a.message = some m) (hm : m.typed = false)
      (hfull : (s.feed.queue q).full = true) (hmem : q ∈ s.feed.clients)
      (hmem' : q ∈ s'.feed.clients) (hstream : stream s' q = stream s q)
  | failed (ha : a = .fail q) (hmem : q ∈ s.feed.clients) (hmem' : q ∉ s'.feed.clients)
      (hstream : stream s' q = stream s q)
  | dropped (m : Message D) (ha : a.message = some m) (hm : m.typed = true)
      (hfull : (s.feed.queue q).full = true) (hmem : q ∈ s.feed.clients)
      (hmem' : q ∉ s'.feed.clients) (hstream : stream s' q = stream s q)

theorem stream_congr (hsent : s'.sent q = s.sent q) (hend : s'.endpoint q = s.endpoint q)
    (hqueue : s'.feed.queue q = s.feed.queue q) : stream s' q = stream s q := by
  rw [stream, stream, hsent, hend, hqueue]

/-- A typed message for a client. -/
theorem clientStep_broadcast (event_type : EventType) (data : D) (now : ℚ)
    (ha : a.message = some ⟨event_type.value, data, now⟩) :
    ClientStep s { s with feed := s.feed.broadcast event_type data now } a q := by
  have htyped : Message.typed (⟨event_type.value, data, now⟩ : Message D) = true := by
    rw [Message.typed, typed_value]
    rfl
  have hmem := mem_clients_broadcast (f := s.feed) (q := q) event_type data now
  have hqueue := queue_broadcast (f := s.feed) (q := q) event_type data now
  by_cases hq : q ∈ s.feed.clients
  · rw [if_pos hq] at hqueue
    cases hfull : (s.feed.queue q).full with
    | false =>
      refine ClientStep.posted _ ha hfull hq (hmem.mpr ⟨hq, hfull⟩) ?_
      rw [stream, stream]
      simp only [hqueue, BoundedQueue.items_offer_of_not_full hfull, List.append_assoc]
    | true =>
      refine ClientStep.dropped _ ha htyped hfull hq (fun h => ?_)
        (stream_congr rfl rfl (hqueue.trans (BoundedQueue.offer_of_full hfull)))
      exact absurd (hmem.mp h).2 (by simp [hfull])
  · rw [if_neg hq] at hqueue
    exact ClientStep.away hq (fun h => hq (hmem.mp h).1) (stream_congr rfl rfl hqueue)

/-- **One action**, for a client that has connected: one of the things that `ClientStep` lists, and
its queue stays a queue that was made. -/
theorem next_client (h : next s a = some s') (hq : q < s.feed.made) :
    q < s'.feed.made ∧ ClientStep s s' a q := by
  cases a with
  | connect =>
    obtain rfl := Option.some.inj h
    have hne : q ≠ s.feed.made := hq.ne
    refine ⟨Nat.lt_succ_of_lt hq, ClientStep.quiet rfl ?_ (stream_congr rfl ?_ ?_)⟩
    · exact List.mem_insert_iff.trans (or_iff_right hne)
    · exact Function.update_of_ne hne _ _
    · exact Function.update_of_ne hne _ _
  | receive q' =>
    simp only [next] at h
    split at h
    · rename_i r hend hget
      obtain rfl := Option.some.inj h
      obtain ⟨⟨m, queue'⟩, hr, rfl⟩ := Option.map_eq_some_iff.mp hget
      refine ⟨hq, ClientStep.quiet rfl Iff.rfl ?_⟩
      by_cases hqq : q = q'
      · subst hqq
        simp [stream, Endpoint.hand, hend, BoundedQueue.get_nowait_eq_some hr]
      · exact stream_congr rfl (Function.update_of_ne hqq _ _) (Function.update_of_ne hqq _ _)
    · cases h
  | sent q' =>
    simp only [next] at h
    split at h
    · rename_i m hend
      obtain rfl := Option.some.inj h
      refine ⟨hq, ClientStep.quiet rfl Iff.rfl ?_⟩
      by_cases hqq : q = q'
      · subst hqq
        simp [stream, Endpoint.hand, hend]
      · exact stream_congr (Function.update_of_ne hqq _ _) (Function.update_of_ne hqq _ _) rfl
    · cases h
  | heartbeat q' =>
    simp only [next] at h
    split at h
    · obtain rfl := Option.some.inj h
      exact ⟨hq, ClientStep.quiet rfl Iff.rfl rfl⟩
    · cases h
  | fail q' =>
    simp only [next] at h
    split at h
    · cases h
    · obtain rfl := Option.some.inj h
      by_cases hqq : q = q'
      · subst hqq
        have hstream : stream
            { s with
              feed := s.feed.unsubscribe q
              endpoint := Function.update s.endpoint q (.closed (s.endpoint q).hand) } q = stream s q := by
          simp [stream, Endpoint.hand, Feed.unsubscribe]
        by_cases hmem : q ∈ s.feed.clients
        · exact ⟨hq, ClientStep.failed rfl hmem s.feed.nodup.not_mem_erase hstream⟩
        · exact ⟨hq, ClientStep.away hmem s.feed.nodup.not_mem_erase hstream⟩
      · exact ⟨hq, ClientStep.quiet rfl (List.mem_erase_of_ne hqq)
          (stream_congr rfl (Function.update_of_ne hqq _ _) rfl)⟩
  | broadcast event_type data now =>
    obtain rfl := Option.some.inj h
    exact ⟨hq.trans_eq (made_broadcast _ _ _).symm, clientStep_broadcast event_type data now rfl⟩
  | emit event_name data now =>
    obtain rfl := Option.some.inj h
    cases hname : EventType.of_name event_name with
    | some event_type =>
      obtain rfl := value_of_name hname
      rw [emit_typed hname]
      exact ⟨hq.trans_eq (made_broadcast _ _ _).symm, clientStep_broadcast event_type data now rfl⟩
    | none =>
      have hraw : Message.typed (⟨event_name, data, now⟩ : Message D) = false := by
        rw [Message.typed, hname]
        rfl
      obtain ⟨hclients, hmade, hqueue⟩ := emit_raw (f := s.feed) (q := q) hname data now
      refine ⟨hq.trans_eq hmade.symm, ?_⟩
      by_cases hmem : q ∈ s.feed.clients
      · rw [if_pos hmem] at hqueue
        have hmem' : q ∈ (s.feed.emit event_name data now).clients := hclients ▸ hmem
        cases hfull : (s.feed.queue q).full with
        | false =>
          refine ClientStep.posted _ rfl hfull hmem hmem' ?_
          rw [stream, stream]
          simp only [hqueue, BoundedQueue.items_offer_of_not_full hfull, List.append_assoc]
        | true =>
          exact ClientStep.skipped _ rfl hraw hfull hmem hmem'
            (stream_congr rfl rfl (hqueue.trans (BoundedQueue.offer_of_full hfull)))
      · rw [if_neg hmem] at hqueue
        exact ClientStep.away hmem (hclients ▸ hmem) (stream_congr rfl rfl hqueue)

end Step

/-! ## Whole runs -/

section Runs

variable {D : Type*} {s s' : System D} {a : Action D} {q : ℕ} {pre post as : List (Action D)}

/-- The queues that were not made yet. -/
def Fresh (s : System D) : Prop :=
  ∀ q, s.feed.made ≤ q → s.sent q = [] ∧ s.endpoint q = .closed none

theorem Fresh.endpoint_lt (hs : Fresh s) (h : s.endpoint q ≠ .closed none) : q < s.feed.made :=
  Nat.lt_of_not_le fun hle => h (hs q hle).2

theorem Fresh.next (hs : Fresh s) (h : next s a = some s') : Fresh s' := by
  -- what changes at `q'` does not change from `made` on
  have hupdate {X : Type _} {q' : ℕ} (hq' : q' < s.feed.made) (g : ℕ → X) (x : X) :
      ∀ q, s.feed.made ≤ q → Function.update g q' x q = g q := fun q hq =>
    Function.update_of_ne (Nat.ne_of_gt (Nat.lt_of_lt_of_le hq' hq)) _ _
  cases a with
  | connect =>
    obtain rfl := Option.some.inj h
    intro q hq
    have hlt : s.feed.made < q := hq
    exact ⟨(hs q hlt.le).1, (Function.update_of_ne hlt.ne' _ _).trans (hs q hlt.le).2⟩
  | receive q' =>
    simp only [LiveFeed.next] at h
    split at h
    · rename_i r hend hget
      obtain rfl := Option.some.inj h
      obtain ⟨x, -, rfl⟩ := Option.map_eq_some_iff.mp hget
      have hq' : q' < s.feed.made := hs.endpoint_lt (by rw [hend]; exact nofun)
      exact fun q hq => ⟨(hs q hq).1, (hupdate hq' _ _ q hq).trans (hs q hq).2⟩
    · cases h
  | sent q' =>
    simp only [LiveFeed.next] at h
    split at h
    · rename_i m hend
      obtain rfl := Option.some.inj h
      have hq' : q' < s.feed.made := hs.endpoint_lt (by rw [hend]; exact nofun)
      exact fun q hq =>
        ⟨(hupdate hq' _ _ q hq).trans (hs q hq).1, (hupdate hq' _ _ q hq).trans (hs q hq).2⟩
    · cases h
  | heartbeat q' =>
    simp only [LiveFeed.next] at h
    split at h
    · exact Option.some.inj h ▸ hs
    · cases h
  | fail q' =>
    simp only [LiveFeed.next] at h
    split at h
    · cases h
    · rename_i hend
      obtain rfl := Option.some.inj h
      have hq' : q' < s.feed.made := hs.endpoint_lt fun hclosed => hend none hclosed
      exact fun q hq => ⟨(hs q hq).1, (hupdate hq' _ _ q hq).trans (hs q hq).2⟩
  | broadcast event_type data now =>
    obtain rfl := Option.some.inj h
    exact fun q hq => hs q ((made_broadcast _ _ _).symm.trans_le hq)
  | emit event_name data now =>
    obtain rfl := Option.some.inj h
    refine fun q hq => hs q (Eq.trans_le ?_ hq)
    cases hname : EventType.of_name event_name with
    | none => exact (emit_raw (q := q) hname data now).2.1.symm
    | some event_type =>
      rw [emit_typed hname]
      exact (made_broadcast _ _ _).symm

theorem made_next (h : next s a = some s') : s'.feed.made = s.feed.made + connects [a] := by
  cases a with
  | connect =>
    obtain rfl := Option.some.inj h
    rfl
  | receive q' =>
    simp only [LiveFeed.next] at h
    split at h
    · rename_i r hend hget
      obtain rfl := Option.some.inj h
      obtain ⟨x, -, rfl⟩ := Option.map_eq_some_iff.mp hget
      rfl
    · cases h
  | sent q' =>
    simp only [LiveFeed.next] at h
    split at h
    · exact Option.some.inj h ▸ rfl
    · cases h
  | heartbeat q' =>
    simp only [LiveFeed.next] at h
    split at h
    · exact Option.some.inj h ▸ rfl
    · cases h
  | fail q' =>
    simp only [LiveFeed.next] at h
    split at h
    · cases h
    · exact Option.some.inj h ▸ rfl
  | broadcast event_type data now =>
    obtain rfl := Option.some.inj h
    exact made_broadcast _ _ _
  | emit event_name data now =>
    obtain rfl := Option.some.inj h
    cases hname : EventType.of_name event_name with
    | none => exact (emit_raw (q := 0) hname data now).2.1
    | some event_type =>
      simp only [emit_typed hname]
      exact made_broadcast _ _ _

/-- A queue has the number of the connects before its own. -/
theorem run_fresh (h : run as = some s) : s.feed.made = connects as ∧ Fresh s := by
  refine Run.foldlM_inv (I := fun as s => s.feed.made = connects as ∧ Fresh s) h
    ⟨rfl, fun _ _ => ⟨rfl, rfl⟩⟩ fun as a s₀ s₁ ⟨hmade, hfresh⟩ hnext => ⟨?_, hfresh.next hnext⟩
  rw [made_next hnext, hmade, connects, connects, connects, List.countP_append]

/-- What a registered client gets up to one action, where its endpoint fails or a typed message finds
its queue full. -/
def CutOff (pre post : List (Action D)) (q : ℕ) (got : List (Message D)) : Prop :=
  ∃ post₁ a post₂, post = post₁ ++ a :: post₂ ∧ got = taken (pre ++ [.connect]) q post₁ ∧
    (a = .fail q ∨ (∃ m, a.message = some m ∧ m.typed = true) ∧
      full_after (pre ++ .connect :: post₁) q = true)

theorem CutOff.later {got : List (Message D)} (h : CutOff pre post q got) (a : Action D) :
    CutOff pre (post ++ [a]) q got := by
  obtain ⟨post₁, b, post₂, rfl, hgot, hcause⟩ := h
  exact ⟨post₁, b, post₂ ++ [a], by rw [List.append_assoc, List.cons_append], hgot, hcause⟩

/-- What every run keeps of the client that connected after `pre`, while `post` has come since. -/
structure Served (pre post : List (Action D)) (s : System D) : Prop where
  made : connects pre < s.feed.made
  registered : connects pre ∈ s.feed.clients →
    stream s (connects pre) = taken (pre ++ [.connect]) (connects pre) post
  dropped : connects pre ∉ s.feed.clients → CutOff pre post (connects pre) (stream s (connects pre))

/-- By induction on what has come since the connect, with one case for each thing that an action can do
to a client. -/
theorem served (pre post : List (Action D)) {s : System D}
    (h : run (pre ++ .connect :: post) = some s) : Served pre post s := by
  induction post using List.reverseRecOn generalizing s with
  | nil =>
    obtain ⟨s₀, hs₀, hnext⟩ := Run.foldlM_concat_eq_some.mp h
    obtain ⟨hmade, hfresh⟩ := run_fresh hs₀
    obtain rfl := Option.some.inj hnext
    constructor <;> rw [← hmade]
    · exact Nat.lt_succ_self _
    · intro _
      simp [stream, Endpoint.hand, Feed.subscribe, (hfresh _ le_rfl).1, BoundedQueue.empty, taken]
    · exact fun hmem => absurd (List.mem_insert_self ..) hmem
  | append_singleton post a ih =>
    rw [← List.cons_append, ← List.append_assoc] at h
    obtain ⟨s₀, hs₀, hnext⟩ := Run.foldlM_concat_eq_some.mp h
    obtain ⟨hlt, hin, hout⟩ := ih hs₀
    obtain ⟨hlt', hclient⟩ := next_client hnext hlt
    have hfull_after : full_after (pre ++ .connect :: post) (connects pre) =
        (s₀.feed.queue (connects pre)).full := by
      rw [full_after, run, hs₀, Option.any_some]
    suffices hstep : (connects pre ∈ s.feed.clients →
        stream s (connects pre) = taken (pre ++ [.connect]) (connects pre) (post ++ [a])) ∧
        (connects pre ∉ s.feed.clients →
          CutOff pre (post ++ [a]) (connects pre) (stream s (connects pre))) from
      ⟨hlt', hstep.1, hstep.2⟩
    rw [taken_concat, Action.taken, List.append_assoc, List.singleton_append, hfull_after]
    cases hclient with
    | quiet ha hmem hstream =>
      rw [hmem, hstream, ha, Option.filter_none, Option.toList_none, List.append_nil]
      exact ⟨hin, fun hq => (hout hq).later a⟩
    | away hmem hmem' hstream =>
      rw [hstream]
      exact ⟨fun hq => absurd hq hmem', fun _ => (hout hmem).later a⟩
    | posted m ha hroom hmem hmem' hstream =>
      rw [hstream, ha, hin hmem, hroom]
      exact ⟨fun _ => by simp [Option.filter_some], fun hq => absurd hmem' hq⟩
    | skipped m ha hm hfull hmem hmem' hstream =>
      rw [hstream, ha, hin hmem, hfull]
      exact ⟨fun _ => by simp [Option.filter_some, hm], fun hq => absurd hmem' hq⟩
    | failed ha hmem hmem' hstream =>
      rw [hstream]
      exact ⟨fun hq => absurd hq hmem', fun _ => ⟨post, a, [], rfl, hin hmem, Or.inl ha⟩⟩
    | dropped m ha hm hfull hmem hmem' hstream =>
      rw [hstream]
      exact ⟨fun hq => absurd hq hmem', fun _ =>
        ⟨post, a, [], rfl, hin hmem, Or.inr ⟨⟨m, ha, hm⟩, hfull_after.trans hfull⟩⟩⟩

/-- **What a client gets**, from its connect on: while it is registered all that is emitted, without the
events of no `EventType` that find a hundred unread messages in its queue; and from the action on that
cuts it off nothing more. -/
theorem client_stream (pre post : List (Action D)) {s : System D}
    (h : run (pre ++ .connect :: post) = some s) :
    (connects pre ∈ s.feed.clients →
      stream s (connects pre) = taken (pre ++ [.connect]) (connects pre) post) ∧
      (connects pre ∉ s.feed.clients → CutOff pre post (connects pre) (stream s (connects pre))) :=
  ⟨(served pre post h).registered, (served pre post h).dropped⟩

/-- Notes, which are of no `EventType`, to a client that does not read. -/
def notes (n : ℕ) : List (Action String) := List.replicate n (.emit "note" "raw" 11)

/-- The last of 101 notes is lost, and the client stays registered. -/
theorem client_stream_notes : ∃ s, run ([] ++ .connect :: notes 101) = some s ∧
    0 ∈ s.feed.clients ∧ stream s 0 = taken [.connect] 0 (notes 101) ∧
    (taken [.connect] 0 (notes 101)).length = 100 := by
  have hrun : ((run ([] ++ .connect :: notes 101)).any fun s => decide (0 ∈ s.feed.clients)) =
      true := by decide +kernel
  obtain ⟨s, hs, hmem⟩ := (Option.any_eq_true _ _).mp hrun
  exact ⟨s, hs, of_decide_eq_true hmem, (client_stream [] (notes 101) hs).1 (of_decide_eq_true hmem),
    by decide +kernel⟩

/-- **What a client is sent** of the typed messages are, in order and without a gap, the first ones
since it connected; while it is registered, all of them but 101 at most: a hundred in its queue and
the one that its endpoint holds. -/
theorem sent_prefix (pre post : List (Action D)) {s : System D}
    (h : run (pre ++ .connect :: post) = some s) :
    (s.sent (connects pre)).filter Message.typed <+: (posts post).filter Message.typed ∧
      (connects pre ∈ s.feed.clients →
        ((posts post).filter Message.typed).length ≤
          ((s.sent (connects pre)).filter Message.typed).length + 101) := by
  obtain ⟨-, hin, hout⟩ := served pre post h
  set q := connects pre
  have hsent : s.sent q <+: stream s q := by
    rw [stream, List.append_assoc]
    exact List.prefix_append _ _
  have hlag : ((stream s q).filter Message.typed).length ≤
      ((s.sent q).filter Message.typed).length + 101 := by
    have hhand : (s.endpoint q).hand.toList.length ≤ 1 := Option.length_toList_le
    have hbound := (s.feed.queue q).bound
    have hrest := List.length_filter_le Message.typed
      ((s.endpoint q).hand.toList ++ (s.feed.queue q).items)
    rw [stream, List.append_assoc, List.filter_append, List.length_append]
    rw [List.length_append] at hrest
    omega
  by_cases hq : q ∈ s.feed.clients
  · rw [← filter_typed_taken q (pre ++ [.connect]) post, ← hin hq]
    exact ⟨hsent.filter _, fun _ => hlag⟩
  · obtain ⟨post₁, a, post₂, rfl, hgot, -⟩ := hout hq
    refine ⟨(hsent.filter Message.typed).trans ?_, fun hmem => absurd hmem hq⟩
    rw [hgot, filter_typed_taken, posts, posts, List.filterMap_append, List.filter_append]
    exact List.prefix_append _ _

/-- A client that is told a tick and has a second one unread. -/
def ticks : List (Action String) :=
  [.broadcast .TICK_UPDATE "tick" 10, .receive 0, .sent 0, .emit "note" "raw" 11,
    .broadcast .TICK_UPDATE "tick" 12]

theorem sent_prefix_ticks : ∃ s, run ([] ++ .connect :: ticks) = some s ∧ 0 ∈ s.feed.clients ∧
    (s.sent 0).filter Message.typed <+: (posts ticks).filter Message.typed ∧
    ((posts ticks).filter Message.typed).length ≤ ((s.sent 0).filter Message.typed).length + 101 :=
  have hprefix := sent_prefix [] ticks rfl
  ⟨_, rfl, List.mem_singleton_self 0, hprefix.1, hprefix.2 (List.mem_singleton_self 0)⟩

end Runs

end Meridian.LiveFeed
