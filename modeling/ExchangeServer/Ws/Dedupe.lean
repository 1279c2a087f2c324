import ExchangeServer.Foundation.SlidingWindow
import ExchangeServer.Ws.Router

/-!
# The cache of event ids is a sliding window

The cache keeps the ids it has admitted twice: in a queue, for their order, and
in a set, in which they are looked up. The loop that takes the oldest ids out of
the queue takes them out of the set as well, so each answer is that of a window
of the same capacity.

## Main results

- `expire_eq`: what the loop leaves in the queue and in the set
- `Shows.isDuplicate`: the cache answers as the window does
- `isDuplicate_iff_recent`: every answer, by the ids admitted before it
-/

namespace Ws

/-- An id that counts: one that is there and not empty. -/
def countedId (eventId : Option String) : Option String :=
  eventId.filter fun eventId => eventId ≠ ""

theorem countedId_eq_some_iff {eventId : Option String} {id : String} :
    countedId eventId = some id ↔ eventId = some id ∧ id ≠ "" := by
  rw [countedId, Option.filter_eq_some_iff, decide_eq_true_eq]

/-- The loop leaves the newest ids of the queue, and the set of them. -/
theorem expire_eq (capacity : ℕ) {order : List String} (hnodup : order.Nodup) :
    expire capacity order order.toFinset =
      (order.rtake capacity, (order.rtake capacity).toFinset) := by
  induction order with
  | nil => rw [expire, List.rtake_nil]
  | cons expired order ih =>
    obtain ⟨hfresh, hnodup⟩ := List.nodup_cons.1 hnodup
    rw [expire]
    split
    · next hmore =>
      -- The oldest id is nowhere else in the queue, so the set loses just that.
      have hseen : (expired :: order).toFinset.erase expired = order.toFinset := by
        rw [List.toFinset_cons]
        exact Finset.erase_insert fun h => hfresh (List.mem_toFinset.1 h)
      have hkept : (expired :: order).rtake capacity = order.rtake capacity := by
        rw [List.length_cons] at hmore
        have hdrop : order.length + 1 - capacity = order.length - capacity + 1 := by omega
        rw [List.rtake, List.length_cons, hdrop, List.drop_succ_cons, List.rtake]
      rw [hseen, ih hnodup, hkept]
    · next hfew =>
      have hall : (expired :: order).rtake capacity = expired :: order := by
        rw [List.rtake, Nat.sub_eq_zero_of_le (not_lt.1 hfew), List.drop_zero]
      rw [hall]

/-- The queue of the cache is that of a window, and its set has the same ids. -/
structure EventDedupe.Shows {capacity : ℕ} (dedupe : EventDedupe) (w : Window String capacity) :
    Prop where
  capacity : dedupe.capacity = capacity
  order : dedupe.order = w.order
  seen : dedupe.seen = w.order.toFinset

theorem shows_new (capacity : ℕ) : (EventDedupe.new capacity).Shows (.empty : Window String capacity) :=
  ⟨rfl, rfl, rfl⟩

/-- The cache answers a call as the window does, and shows it afterwards. -/
theorem EventDedupe.Shows.isDuplicate {capacity : ℕ} {dedupe : EventDedupe}
    {w : Window String capacity} (h : dedupe.Shows w) (eventId : Option String) :
    (dedupe.isDuplicate eventId).1 = (w.call (countedId eventId)).1 ∧
      (dedupe.isDuplicate eventId).2.Shows (w.call (countedId eventId)).2 := by
  rw [EventDedupe.isDuplicate, ← countedId]
  cases countedId eventId with
  | none => exact ⟨rfl, h⟩
  | some id =>
    have hseen : id ∈ dedupe.seen ↔ id ∈ w.order := by rw [h.seen, List.mem_toFinset]
    rw [Window.call]
    dsimp only
    by_cases hid : id ∈ w.order
    · rw [if_pos (hseen.2 hid), dif_pos hid]
      exact ⟨rfl, h⟩
    · rw [if_neg (mt hseen.1 hid), dif_neg hid]
      by_cases hzero : dedupe.capacity = 0
      · -- Nothing is remembered, in the window as in the cache.
        rw [if_pos hzero]
        have hcapacity : capacity = 0 := h.capacity.symm.trans hzero
        have hnone : (w.remember id hid).order = [] := by
          refine List.eq_nil_of_length_eq_zero (Nat.le_zero.1 ?_)
          exact (w.remember id hid).bounded.trans_eq hcapacity
        have hempty : w.order = [] := by
          refine List.eq_nil_of_length_eq_zero (Nat.le_zero.1 ?_)
          exact w.bounded.trans_eq hcapacity
        refine ⟨rfl, h.capacity, ?_, ?_⟩
        · rw [hnone, h.order, hempty]
        · rw [hnone, h.seen, hempty]
      · rw [if_neg hzero]
        have hinserted : insert id dedupe.seen = (w.order ++ [id]).toFinset := by
          rw [h.seen, List.toFinset_append, Finset.union_comm]
          rfl
        have hexpired := expire_eq dedupe.capacity (w.nodup_concat hid)
        rw [← hinserted, ← h.order] at hexpired
        refine ⟨rfl, h.capacity, ?_, ?_⟩
        · show (expire _ _ _).1 = (w.order ++ [id]).rtake capacity
          rw [hexpired, h.order, h.capacity]
        · show (expire _ _ _).2 = ((w.order ++ [id]).rtake capacity).toFinset
          rw [hexpired, h.order, h.capacity]

/-! ## Calls -/

/-- The calls with their answers, and the cache after them. -/
structure CallHistory where
  calls : List (Option String × Bool)
  dedupe : EventDedupe

def CallHistory.call (history : CallHistory) (eventId : Option String) : CallHistory :=
  let duplicate := history.dedupe.isDuplicate eventId
  { calls := history.calls ++ [(eventId, duplicate.1)], dedupe := duplicate.2 }

/-- Calls on a new cache, one after the other. -/
def callAll (capacity : ℕ) (eventIds : List (Option String)) : CallHistory :=
  eventIds.foldl CallHistory.call { calls := [], dedupe := .new capacity }

/-- The ids that have been admitted: those of calls that were answered `false`. -/
def admittedIds (calls : List (Option String × Bool)) : List String :=
  calls.filterMap fun call => if call.2 then none else countedId call.1

theorem admittedIds_eq (calls : List (Option String × Bool)) :
    admittedIds calls = Window.admitted (calls.map fun call => (countedId call.1, call.2)) := by
  rw [admittedIds, Window.admitted, List.filterMap_map]
  rfl

/-- After any calls the cache shows a window that ends the list of admissions. -/
theorem shows_callAll (capacity : ℕ) (eventIds : List (Option String)) :
    ∃ w : Window String capacity, (callAll capacity eventIds).dedupe.Shows w ∧
      w.order = (admittedIds (callAll capacity eventIds).calls).rtake capacity := by
  induction eventIds using List.reverseRecOn with
  | nil =>
    refine ⟨.empty, shows_new capacity, ?_⟩
    exact (List.rtake_nil capacity).symm
  | append_singleton eventIds eventId ih =>
    obtain ⟨w, hshows, horder⟩ := ih
    obtain ⟨hanswer, hshows'⟩ := hshows.isDuplicate eventId
    have hstep : callAll capacity (eventIds ++ [eventId]) =
        (callAll capacity eventIds).call eventId := by
      rw [callAll, List.foldl_append, List.foldl_cons, List.foldl_nil, callAll]
    refine ⟨(w.call (countedId eventId)).2, ?_, ?_⟩
    · rw [hstep]
      exact hshows'
    · rw [admittedIds_eq] at horder ⊢
      rw [hstep, CallHistory.call, List.map_append, List.map_singleton, hanswer]
      exact Window.order_call horder (countedId eventId)

/-- The answer to a call, by the ids that were admitted last before it, and the
cache after the call, whichever calls there were before. -/
theorem isDuplicate_iff_recent (capacity : ℕ) (eventIds : List (Option String))
    (eventId : Option String) :
    let before := callAll capacity eventIds
    let duplicate := before.dedupe.isDuplicate eventId
    (duplicate.1 = true ↔
      ∃ id, eventId = some id ∧ id ≠ "" ∧ id ∈ (admittedIds before.calls).rtake capacity) ∧
    (∀ id, id ∈ duplicate.2.seen ↔ id ∈ duplicate.2.order) ∧
    duplicate.2.order.Nodup ∧ duplicate.2.order.length ≤ capacity := by
  obtain ⟨w, hshows, horder⟩ := shows_callAll capacity eventIds
  obtain ⟨hanswer, hafter⟩ := hshows.isDuplicate eventId
  refine ⟨?_, fun id => ?_, ?_, ?_⟩
  · rw [hanswer, Window.call_eq_true_iff, ← horder]
    refine exists_congr fun id => ?_
    rw [countedId_eq_some_iff, and_assoc]
  · rw [hafter.seen, hafter.order, List.mem_toFinset]
  · rw [hafter.order]
    exact Window.nodup _
  · rw [hafter.order]
    exact Window.bounded _

/-- An id that has left the cache comes back as a new one. -/
example : (callAll 2 [some "1", some "2", some "", some "3", some "1", none, some "3"]).calls.map Prod.snd =
    [false, false, false, false, false, false, true] := by
  decide

end Ws
