import Arachnida.Library.Monitor

/-!
The queue between the connections and the application, `Spin::Handlers::HTTPRequestHandler`.

* `requestHandler`: the two functions as those of a monitor over the deque, for requests of any
  type.
* `handedIn`, `handedOut`: the requests that the bodies run so far have put into the deque, and
  those that they have taken out of it.
* `requests_in_order`: **what was put in is what was taken out and what is there**, in this order,
  and every call does its part of it once.
* `next_request`: **a queued request is never stranded**: where a thread is in `getNextRequest`,
  the steps of those inside lead to the return of the request in front.
-/

namespace Arachnida.Spin

open Library

/-- A call: `handle` with its request, or `getNextRequest`. -/
inductive HandlerCall (α : Type*) where
  | handle (request : α)
  | getNextRequest
  deriving DecidableEq, Repr

variable {α τ : Type*}

/-- The handler; its value is `requests_`, and `getNextRequest` returns the request. -/
def requestHandler : Monitor (List α) (HandlerCall α) (Option α) where
  run
    | .handle request, requests_ => some (none, requests_ ++ [request])
    -- `requests_cond_.wait`
    | .getNextRequest, [] => none
    | .getNextRequest, request :: requests_ => some (some request, requests_)
  notifies
    | .handle _ => true
    | .getNextRequest => false

/-- The requests put into the deque. -/
def handedIn (log : List (τ × HandlerCall α × Option α)) : List α :=
  log.filterMap fun entry => match entry.2.1 with
    | .handle request => some request
    | .getNextRequest => none

/-- The requests taken out of it. -/
def handedOut (log : List (τ × HandlerCall α × Option α)) : List α :=
  log.filterMap fun entry => entry.2.2

/-- Each request is an item. -/
lemma requestHandler_counts : (requestHandler (α := α)).Counts List.length where
  waits := by
    rintro (request | _) (_ | ⟨first, requests_⟩) h
    · cases h
    · cases h
    · exact ⟨rfl, rfl⟩
    · cases h
  adds := by
    rintro (request | _) v r v' h hn
    · obtain ⟨rfl, rfl⟩ := Prod.mk.inj (Option.some.inj h)
      exact List.length_append
    · cases hn
  takes := by
    rintro (request | _) (_ | ⟨first, requests_⟩) r v' h hn
    · cases hn
    · cases hn
    · cases h
    · obtain ⟨rfl, rfl⟩ := Prod.mk.inj (Option.some.inj h)
      rfl

/-- A sequential run: what was put in leaves at the front. -/
lemma handedIn_append {log : List (τ × HandlerCall α × Option α)} {requests_ requests_' : List α}
    (h : RunTo requestHandler.sequential requests_ log requests_') :
    requests_ ++ handedIn log = handedOut log ++ requests_' := by
  induction log generalizing requests_ with
  | nil =>
      obtain rfl : requests_ = requests_' := h
      simp [handedIn, handedOut]
  | cons entry log ih =>
      obtain ⟨m, hm, hrest⟩ := h
      obtain ⟨t, i, r⟩ := entry
      have hlater := ih hrest
      cases i with
      | handle request =>
          obtain ⟨rfl, rfl⟩ := Prod.mk.inj (Option.some.inj hm)
          simpa [handedIn, handedOut] using hlater
      | getNextRequest =>
          cases requests_ with
          | nil => cases hm
          | cons first requests_ =>
              obtain ⟨rfl, rfl⟩ := Prod.mk.inj (Option.some.inj hm)
              simpa [handedIn, handedOut] using hlater

variable [DecidableEq τ] {as : List (Monitor.Action τ (HandlerCall α))}
  {s : Monitor.State τ (List α) (HandlerCall α) (Option α)}

lemma handedIn_eq (h : RunTo requestHandler.Step (.init []) as s) :
    handedIn s.log = handedOut s.log ++ s.value := by
  simpa using handedIn_append (Monitor.linearized h)

/-- **The requests are returned in the order in which they were handed over**, each of them once:
in every run of any number of threads, what the bodies of `handle` put into the deque is what those
of `getNextRequest` have returned and what the deque holds; and the calls of each thread have run
their bodies once, in the order of the calls, except the one it is still in front of. -/
theorem requests_in_order (h : RunTo requestHandler.Step (.init []) as s) :
    handedIn s.log = handedOut s.log ++ s.value ∧
      ∀ t, Monitor.calls t as = Monitor.bodies t s.log ++ Monitor.Place.pending (s.place t) :=
  ⟨handedIn_eq h, Monitor.calls_eq h⟩

/-- A thread sleeps in `getNextRequest` when another one puts a request into the deque. -/
def oneHandled : List (Monitor.Action (Fin 3) (HandlerCall ℕ)) :=
  [.call 2 .getNextRequest, .acquire 2, .wait 2, .call 0 (.handle 7), .acquire 0, .run 0]

lemma oneHandled_run : ∃ s : Monitor.State (Fin 3) (List ℕ) (HandlerCall ℕ) (Option ℕ),
    RunTo requestHandler.Step (.init []) oneHandled s ∧ s.value = [7] ∧
      s.place 2 = .asleep .getNextRequest :=
  ⟨_, ⟨_, .call rfl, _, .acquire (.inl rfl) rfl, _, .wait rfl rfl, _, .call rfl, _,
    .acquire (.inl rfl) rfl, _, .run rfl rfl, rfl⟩, rfl, rfl⟩

/-- The sleeper has not been woken yet. -/
theorem requests_in_order_one :
    ∃ s : Monitor.State (Fin 3) (List ℕ) (HandlerCall ℕ) (Option ℕ),
      (handedIn s.log = handedOut s.log ++ s.value ∧ ∀ t, Monitor.calls t oneHandled
        = Monitor.bodies t s.log ++ Monitor.Place.pending (s.place t)) ∧ s.value = [7] := by
  obtain ⟨s, hrun, hvalue, -⟩ := oneHandled_run
  exact ⟨s, requests_in_order hrun, hvalue⟩

/-- **A queued request is never stranded**: while the deque holds a request and a thread is in
`getNextRequest`, at most four steps of those inside, none of which is a wake-up by chance, lead to
the return of the request in front. -/
theorem next_request [Fintype τ] (h : RunTo requestHandler.Step (.init []) as s) {request : α}
    {requests_ : List α} (hvalue : s.value = request :: requests_) {t : τ}
    (ht : .getNextRequest ∈ Monitor.Place.pending (s.place t)) :
    ∃ as' s', as'.length ≤ 4 ∧ (∀ a ∈ as', a.Inside) ∧ RunTo requestHandler.Step s as' s' ∧
      handedOut s.log ++ [request] <+: handedOut s'.log := by
  have hav : 0 < s.value.length := by rw [hvalue]; exact Nat.succ_pos _
  obtain ⟨as', s', log, u, i, r, hlen, hinside, hrun, hi, hlog⟩ :=
    Monitor.progress requestHandler_counts h hav ht rfl
  refine ⟨as', s', hlen, hinside, hrun, ?_⟩
  have hrun' := runTo_append.mpr ⟨_, h, hrun⟩
  -- the last body has returned a request
  have hlast : ∃ last, r = some last := by
    have hlegal := Monitor.linearized hrun'
    rw [hlog, runTo_append] at hlegal
    obtain ⟨m, -, m', hm, -⟩ := hlegal
    cases i with
    | handle => cases hi
    | getNextRequest =>
        cases m with
        | nil => cases hm
        | cons first m => exact ⟨first, (Prod.mk.inj (Option.some.inj hm)).1.symm⟩
  obtain ⟨last, rfl⟩ := hlast
  -- what was put in before is taken out before what has been put in since
  have hbefore := handedIn_eq h
  have hafter := handedIn_eq hrun'
  have hout : handedOut s'.log = handedOut s.log ++ (handedOut log ++ [last]) := by
    simp [hlog, handedOut]
  have hin : ∃ more, handedIn s'.log = handedIn s.log ++ more := by
    rw [hlog, List.append_assoc, handedIn, List.filterMap_append]
    exact ⟨_, rfl⟩
  obtain ⟨more, hmore⟩ := hin
  rw [hmore, hbefore, hout, hvalue, List.append_assoc, List.append_assoc,
    List.append_cancel_left_eq] at hafter
  rw [hout, List.prefix_append_right_inj]
  cases hl : handedOut log ++ [last] with
  | nil => simp at hl
  | cons first l =>
      rw [hl] at hafter
      obtain ⟨rfl, -⟩ := List.cons.inj hafter
      simp

/-- The sleeper gets the request. -/
theorem next_request_one :
    ∃ as' : List (Monitor.Action (Fin 3) (HandlerCall ℕ)), ∃ s s', as'.length ≤ 4 ∧
      RunTo requestHandler.Step (.init []) oneHandled s ∧ RunTo requestHandler.Step s as' s' ∧
      handedOut s.log ++ [7] <+: handedOut s'.log := by
  obtain ⟨s, hrun, hvalue, hplace⟩ := oneHandled_run
  obtain ⟨as', s', hlen, -, hrun', hout⟩ := next_request hrun hvalue (t := 2)
    (by simp [hplace, Monitor.Place.pending])
  exact ⟨as', s, s', hlen, hrun, hrun', hout⟩

end Arachnida.Spin
