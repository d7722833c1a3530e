import Arachnida.Spin.Private.Notification

/-!
The end of the worker thread: the destructor of the handler sets `done_`, writes a byte to the pipe
and joins the worker.

* `Worker.left`: how many steps the worker can still make until it has ended.
* `Ringing`: behind the destructor the pipe holds a byte unless the worker is at the head of its
  loop or has ended.
* `worker_joins`: **the worker ends.**  Behind the destructor it makes no more steps than it has
  left and four for each `attach`, and until it has ended there is one that it can make.
* `Stranded`: a thread that waits for an entry that is not detached, behind the destructor.
* `wait_returns_iff`: when the worker has ended, a `detach` that waits can return if and only if the
  worker had detached its entry.
* `detach_behind_destroy`: **a `detach` that another thread begins behind the destructor** can
  return if and only if there is nothing to detach.

Behind the destructor means that the worker sees `done_` when it looks next.
-/

namespace Arachnida.Spin.Private

open Library

variable {τ κ : Type*} {pipe : ℤ} {s s' : State τ κ} {before after : List (Action τ κ)}

/-! ### The steps that are left -/

/-- The steps to the head of the loop and out of it, with so many entries: two for each removal and
four for each callback, since a callback is called, returns and may leave a removal. -/
def Worker.left (entries : ℕ) : Worker κ → ℕ
  | .exited => 0
  | .top => 1
  | .draining => 2
  | .locked removals => 2 * removals.length + 2
  | .reporting _ _ removals | .removing removals => 2 * removals.length + 3
  | .running _ _ calls removals => 4 * calls.length + 2 * removals.length + 6
  | .calling _ _ calls removals => 4 * calls.length + 2 * removals.length + 7
  | .failed _ | .reported _ => 4 * entries + 4
  | .selecting _ => 4 * entries + 5

/-- The steps that the worker has left. -/
def State.left (s : State τ κ) : ℕ := s.worker.left s.callbacks_.length

/-- A step of the worker's loop. -/
def Action.loops : Action τ κ → ℕ
  | .attach _ _ _ _ | .detach _ _ | .wake _ | .destroy => 0
  | _ => 1

/-- A call of `attach`. -/
def Action.attaches : Action τ κ → ℕ
  | .attach _ _ _ _ => 1
  | _ => 0

lemma Worker.left_mono {m n : ℕ} (h : m ≤ n) (w : Worker κ) : w.left m ≤ w.left n := by
  cases w <;> simp only [left] <;> omega

lemma Worker.left_succ (n : ℕ) (w : Worker κ) : w.left (n + 1) ≤ w.left n + 4 := by
  cases w <;> simp only [left] <;> omega

lemma Worker.left_leave (n : ℕ) (fds : Finset ℤ) (removals : List ℤ) :
    (Worker.leave pipe fds removals : Worker κ).left n ≤ 2 * removals.length + 3 := by
  rw [leave]
  split_ifs <;> simp only [left] <;> omega

lemma Worker.left_dispatch (n : ℕ) (fds : Finset ℤ) (calls : List (CallbackToCall κ))
    (removals : List ℤ) :
    (Worker.dispatch pipe fds calls removals).left n
      ≤ 4 * calls.length + 2 * removals.length + 3 := by
  cases calls with
  | nil => simpa [dispatch] using left_leave n fds removals
  | cons c cs =>
      simp only [dispatch, left, List.length_cons]
      omega

@[simp]
lemma length_setState (n : ℕ) (state : AttachmentState_) (l : List (Callback_ κ)) :
    (setState n state l).length = l.length :=
  List.length_map _

lemma length_eraseNode_le (n : ℕ) (l : List (Callback_ κ)) : (eraseNode n l).length ≤ l.length :=
  (eraseNode_sublist n l).length_le

lemma length_callbacksToCall_le (fds : Finset ℤ) (l : List (Callback_ κ)) :
    (callbacksToCall fds l).length ≤ l.length := by
  rw [callbacksToCall, List.length_map]
  exact List.length_filter_le _ l

lemma length_brokenFDs_le (testFD_ : ℤ → Bool) (l : List (Callback_ κ)) :
    (brokenFDs testFD_ l).length ≤ l.length := by
  rw [brokenFDs, List.length_map]
  exact List.length_filter_le _ l

/-- A list that has not become longer. -/
lemma State.left_le (hlist : s'.callbacks_.length ≤ s.callbacks_.length)
    (hworker : s'.worker = s.worker) : s'.left ≤ s.left := by
  rw [left, left, hworker]
  exact Worker.left_mono hlist _

variable [DecidableEq τ]

/-- Nothing takes `done_` back. -/
lemma Step.done_ {a : Action τ κ} (hstep : Step pipe s a s') (hdone : s.done_ = true) :
    s'.done_ = true := by
  cases hstep with
  | @detach who fd _ =>
      obtain hd | ⟨e, -, ⟨rfl, hd⟩ | ⟨t, rfl, hd⟩⟩ := s.detach_cases who fd <;> rw [hd] <;>
        exact hdone
  | wake =>
      rw [State.wake]
      split_ifs <;> exact hdone
  | destroy => rfl
  | @remove fd removals _ =>
      obtain hr | ⟨e, -, hr | ⟨g, hr⟩⟩ := s.remove_cases fd removals <;> rw [hr] <;> exact hdone
  | _ => exact hdone

/-- **One step**: a step of the loop is one of those that were left, and an `attach` adds four. -/
lemma Step.left {a : Action τ κ} (hstep : Step pipe s a s') (hdone : s.done_ = true) :
    s'.left + a.loops ≤ s.left + 4 * a.attaches := by
  cases hstep with
  | attach =>
      have hsucc := s.worker.left_succ s.callbacks_.length
      simpa [State.left, State.attach, Action.loops, Action.attaches] using hsucc
  | @detach who fd _ =>
      refine State.left_le ?_ ?_
      · obtain hd | ⟨e, -, ⟨rfl, hd⟩ | ⟨t, rfl, hd⟩⟩ := s.detach_cases who fd <;> rw [hd]
        · exact (length_eraseNode_le _ _).trans (length_setState _ _ _).le
        · exact (length_setState _ _ _).le
      · obtain hd | ⟨e, -, ⟨rfl, hd⟩ | ⟨t, rfl, hd⟩⟩ := s.detach_cases who fd <;> rw [hd] <;> rfl
  | wake =>
      rw [State.wake]
      split_ifs
      · exact State.left_le (length_eraseNode_le _ _) rfl
      · exact le_rfl
  | destroy => exact le_rfl
  | compute _ hgoes => exact absurd (hdone.symm.trans hgoes) (by simp)
  | @test fds testFD_ hw =>
      have hbefore : s.left = 4 * s.callbacks_.length + 4 := by rw [State.left, hw]; rfl
      have hlength := length_brokenFDs_le testFD_ s.callbacks_
      have hleave := @Worker.left_leave κ pipe s.callbacks_.length fds
        (brokenFDs testFD_ s.callbacks_)
      show (Worker.leave pipe fds (brokenFDs testFD_ s.callbacks_)).left s.callbacks_.length + 1
        ≤ s.left + 4 * 0
      omega
  | @collect fds hw =>
      have hbefore : s.left = 4 * s.callbacks_.length + 4 := by rw [State.left, hw]; rfl
      have hlength := length_callbacksToCall_le fds s.callbacks_
      have hdispatch := @Worker.left_dispatch κ pipe s.callbacks_.length fds
        (callbacksToCall fds s.callbacks_) []
      rw [List.length_nil] at hdispatch
      show (Worker.dispatch pipe fds (callbacksToCall fds s.callbacks_) []).left
        s.callbacks_.length + 1 ≤ s.left + 4 * 0
      omega
  | @callReturns fds curr calls removals hw =>
      have hbefore : s.left = 4 * calls.length + 2 * removals.length + 6 := by
        rw [State.left, hw]; rfl
      have hdispatch := @Worker.left_dispatch κ pipe s.callbacks_.length fds calls removals
      show (Worker.dispatch pipe fds calls removals).left s.callbacks_.length + 1 ≤ s.left + 4 * 0
      omega
  | @callThrows fds curr calls removals hw =>
      have hbefore : s.left = 4 * calls.length + 2 * removals.length + 6 := by
        rw [State.left, hw]; rfl
      have hdispatch := @Worker.left_dispatch κ pipe s.callbacks_.length fds calls
        (removals ++ [curr.file_descriptor])
      rw [List.length_append, List.length_singleton] at hdispatch
      show (Worker.dispatch pipe fds calls (removals ++ [curr.file_descriptor])).left
        s.callbacks_.length + 1 ≤ s.left + 4 * 0
      omega
  | @remove fd removals hw =>
      obtain hr | ⟨e, -, hr | ⟨g, hr⟩⟩ := s.remove_cases fd removals <;>
        simp only [hr, State.left, hw, Worker.left, Action.loops, List.length_cons] <;> omega
  | exit hw | select hw | selectFails hw | call hw | lock hw | errorReturns hw | unlock hw
    | drain hw =>
      simp only [State.left, hw, Worker.left, Action.loops, List.length_nil]
      omega

/-! ### The byte of the destructor -/

/-- Behind the destructor the worker is at the head of its loop, or it has ended, or the pipe holds
a byte. -/
def Ringing (s : State τ κ) : Prop :=
  s.done_ = true → s.worker = .top ∨ s.worker = .exited ∨ 0 < s.sync_pipe_

omit [DecidableEq τ] in
/-- The worker does not read the pipe and does not leave the head of its loop. -/
lemma Ringing.of_pipe (h : Ringing s) (hdone : s'.done_ = s.done_)
    (hworker : s'.worker = s.worker ∨ (s.worker ≠ .top ∧ s.worker ≠ .exited))
    (hpipe : s.sync_pipe_ ≤ s'.sync_pipe_) : Ringing s' := by
  intro hd
  rcases h (hdone ▸ hd) with hw | hw | hbyte
  · exact hworker.elim (fun he => .inl (he.trans hw)) fun hne => absurd hw hne.1
  · exact hworker.elim (fun he => .inr (.inl (he.trans hw))) fun hne => absurd hw hne.2
  · exact .inr (.inr (hbyte.trans_le hpipe))

lemma Ringing.step {a : Action τ κ} (h : Ringing s) (hstep : Step pipe s a s') : Ringing s' := by
  cases hstep with
  | attach => exact h.of_pipe rfl (.inl rfl) (Nat.le_succ _)
  | @detach who fd _ =>
      obtain hd | ⟨e, -, ⟨rfl, hd⟩ | ⟨t, rfl, hd⟩⟩ := s.detach_cases who fd <;> rw [hd]
      · exact h
      · exact h.of_pipe rfl (.inl rfl) (Nat.le_succ _)
      · exact h.of_pipe rfl (.inl rfl) (Nat.le_succ _)
  | wake =>
      rw [State.wake]
      split_ifs
      · exact h.of_pipe rfl (.inl rfl) le_rfl
      · exact h
  | destroy => exact fun _ => .inr (.inr (Nat.succ_pos _))
  | exit => exact fun _ => .inr (.inl rfl)
  | compute _ hgoes => exact fun hdone => absurd (hdone.symm.trans hgoes) (by simp)
  | unlock | drain => exact fun _ => .inl rfl
  | @remove fd removals hw =>
      obtain hr | ⟨e, -, hr | ⟨g, hr⟩⟩ := s.remove_cases fd removals <;> rw [hr] <;>
        exact h.of_pipe rfl (.inr (by simp [hw])) le_rfl
  | select hw | selectFails hw | test hw | collect hw | call hw | callReturns hw | callThrows hw
    | lock hw | errorReturns hw => exact h.of_pipe rfl (.inr (by simp [hw])) le_rfl

/-- Behind the destructor the worker has ended or can go on: `select` returns for the byte in the
pipe, and the pipe is read where it holds one. -/
lemma Ringing.goes_on (h : Ringing s) (hawake : Awake pipe s) (hdone : s.done_ = true) :
    s.worker = .exited ∨
      ∃ a s', Action.loops a = 1 ∧ a ≠ .selectFails ∧ Step pipe s a s' := by
  have hbyte : s.worker ≠ .top → s.worker ≠ .exited → 0 < s.sync_pipe_ := by
    intro htop hexited
    rcases h hdone with hw | hw | hbyte
    · exact absurd hw htop
    · exact absurd hw hexited
    · exact hbyte
  cases hw : s.worker with
  | exited => exact .inl rfl
  | top => exact .inr ⟨_, _, rfl, by simp, .exit hw hdone⟩
  | selecting fds =>
      have hset : pipe ∈ ({pipe} : Finset ℤ) ↔ 0 < s.sync_pipe_ := by
        simp [hbyte (by simp [hw]) (by simp [hw])]
      exact .inr ⟨_, _, rfl, by simp, .select hw (by simpa using hawake.mem fds hw) (by simp) hset⟩
  | failed fds => exact .inr ⟨_, _, rfl, by simp, @Step.test _ _ _ _ s fds (fun _ => true) hw⟩
  | reported fds => exact .inr ⟨_, _, rfl, by simp, .collect hw⟩
  | calling fds curr calls removals => exact .inr ⟨_, _, rfl, by simp, .call hw⟩
  | running fds curr calls removals => exact .inr ⟨_, _, rfl, by simp, .callReturns hw⟩
  | removing removals => exact .inr ⟨_, _, rfl, by simp, .lock hw⟩
  | locked removals =>
      cases removals with
      | nil => exact .inr ⟨_, _, rfl, by simp, .unlock hw⟩
      | cons fd removals => exact .inr ⟨_, _, rfl, by simp, .remove hw⟩
  | reporting node g removals => exact .inr ⟨_, _, rfl, by simp, .errorReturns hw⟩
  | draining =>
      have hread := hbyte (by simp [hw]) (by simp [hw])
      exact .inr ⟨_, _, rfl, by simp, .drain hw one_pos (by norm_num) hread⟩

/-- **The worker ends**: behind the destructor it makes at most the steps it has left, and four for
each `attach` that still comes; and as long as it has not ended it can make a step, if the callbacks
return. -/
theorem worker_joins (hs : RunTo (Step pipe) (State.init : State τ κ) before s)
    (hdone : s.done_ = true) (h : RunTo (Step pipe) s after s') :
    s'.left + (after.map Action.loops).sum
        ≤ s.left + (after.map fun a => 4 * a.attaches).sum ∧
      (s'.worker = .exited ∨
        ∃ a s'', Action.loops a = 1 ∧ a ≠ .selectFails ∧ Step pipe s' a s'') := by
  have hreached : RunTo (Step pipe) (State.init : State τ κ) (before ++ after) s' :=
    runTo_append.mpr ⟨s, hs, h⟩
  have hringing : Ringing s' :=
    hreached.invariant (fun _ _ _ hr hstep => hr.step hstep) (by simp [Ringing, State.init])
  have hawake : Awake pipe s' :=
    hreached.invariant (fun _ a _ hr hstep => hr.step a hstep) Awake.init
  have hkeeps : ∀ (s : State τ κ) a s', s.done_ = true → Step pipe s a s' → s'.done_ = true :=
    fun _ _ _ hd hstep => hstep.done_ hd
  have hdone' :=
    @RunTo.invariant _ _ (Step pipe) (fun s => s.done_ = true) s s' after hkeeps h hdone
  refine ⟨?_, hringing.goes_on hawake hdone'⟩
  exact h.potential hkeeps (fun _ _ _ hd hstep => hstep.left hd) hdone

/-- The worker is in `select` when the handler is destroyed, and an `attach` comes too late. -/
theorem worker_joins_select :
    let s : State Bool Unit :=
      ⟨[⟨0, 5, (), none, .attached__⟩], true, 2, .selecting {3, 5}, fun _ => .free, 1, false, []⟩
    let s' : State Bool Unit :=
      { s.attach 6 () none with worker := .reported {3} }
    s'.left + 1 ≤ s.left + 4 ∧
      (s'.worker = .exited ∨
        ∃ a s'', Action.loops a = 1 ∧ a ≠ .selectFails ∧ Step 3 s' a s'') := by
  intro s s'
  have hs : RunTo (Step 3) State.init [.attach (.thread true) 5 () none, .compute, .destroy] s :=
    ⟨_, .attach ⟨rfl, not_false⟩ (by decide), _, .compute rfl rfl, _, .destroy, rfl⟩
  have h : RunTo (Step 3) s [.attach (.thread true) 6 () none, .select {3}] s' :=
    ⟨_, .attach ⟨rfl, not_false⟩ (by decide), _,
      .select rfl (by decide) (by simp) (by decide), rfl⟩
  exact worker_joins hs rfl h

/-! ### The threads that wait -/

/-- The thread waits for an entry that is not detached, and the set is computed no more. -/
structure Stranded (t : τ) (n : ℕ) (s : State τ κ) : Prop where
  done_ : s.done_ = true
  waits : s.threads t = .waiting n
  undetached : ∀ e ∈ s.callbacks_, e.node = n → e.state ≠ .detached__

omit [DecidableEq τ] in
/-- A mark does not detach. -/
lemma undetached_setState {n m : ℕ} {l : List (Callback_ κ)}
    (h : ∀ e ∈ l, e.node = n → e.state ≠ .detached__) :
    ∀ e ∈ setState m .pending_detachment__ l, e.node = n → e.state ≠ .detached__ := by
  intro e' he' hn
  obtain ⟨e, he, rfl⟩ := List.mem_map.mp he'
  split_ifs at hn ⊢ with hm
  · simp
  · exact h e he hn

omit [DecidableEq τ] in
lemma undetached_eraseNode {n m : ℕ} {l : List (Callback_ κ)}
    (h : ∀ e ∈ l, e.node = n → e.state ≠ .detached__) :
    ∀ e ∈ eraseNode m l, e.node = n → e.state ≠ .detached__ :=
  fun e he => h e (mem_eraseNode.mp he).1

/-- Every step keeps the thread waiting. -/
lemma Stranded.step {t : τ} {n : ℕ} {a : Action τ κ} (h : Stranded t n s)
    (hstep : Step pipe s a s') : Stranded t n s' := by
  have hdone := hstep.done_ h.done_
  cases hstep with
  | attach =>
      refine ⟨hdone, h.waits, fun e he hn => ?_⟩
      rcases List.mem_append.mp he with he | he
      · exact h.undetached e he hn
      · simp [List.mem_singleton.mp he]
  | @detach who fd hmay =>
      obtain hd | ⟨e, -, ⟨rfl, hd⟩ | ⟨t', rfl, hd⟩⟩ := s.detach_cases who fd <;> rw [hd]
      · exact h
      · exact ⟨h.done_, h.waits, undetached_eraseNode (undetached_setState h.undetached)⟩
      · have hne : t ≠ t' := by
          rintro rfl
          exact absurd (h.waits.symm.trans hmay.1) (by simp)
        exact ⟨h.done_, (Function.update_of_ne hne _ _).trans h.waits,
          undetached_setState h.undetached⟩
  | @wake t' e ht' he _ =>
      rw [State.wake]
      split_ifs with hstate
      · have hne : t ≠ t' := by
          rintro rfl
          have hn : e.node = n := Thread.waiting.inj (ht'.symm.trans h.waits)
          exact h.undetached e he hn hstate
        exact ⟨h.done_, (Function.update_of_ne hne _ _).trans h.waits,
          undetached_eraseNode h.undetached⟩
      · exact h
  | destroy => exact ⟨rfl, h.waits, h.undetached⟩
  | compute _ hgoes => exact absurd (h.done_.symm.trans hgoes) (by simp)
  | @remove fd removals _ =>
      obtain hr | ⟨e, -, hr | ⟨g, hr⟩⟩ := s.remove_cases fd removals <;> rw [hr]
      · exact ⟨h.done_, h.waits, h.undetached⟩
      · exact ⟨h.done_, h.waits, undetached_setState h.undetached⟩
      · exact ⟨h.done_, h.waits, undetached_setState h.undetached⟩
  | _ => exact ⟨hdone, h.waits, h.undetached⟩

/-- The thread can get out of its wait. -/
def CanReturn (pipe : ℤ) (t : τ) (s : State τ κ) : Prop :=
  ∃ after s', RunTo (Step pipe) s after s' ∧ s'.threads t = .free

lemma Stranded.not_canReturn {t : τ} {n : ℕ} (h : Stranded t n s) : ¬ CanReturn pipe t s := by
  rintro ⟨after, s', hrun, hfree⟩
  have hlast := hrun.invariant (fun _ _ _ hs hstep => Stranded.step hs hstep) h
  exact absurd (hlast.waits.symm.trans hfree) (by simp)

/-- **When the worker has ended** behind the destructor, a `detach` that waits can return if and
only if the worker had detached its entry. -/
theorem wait_returns_iff {t : τ} {n : ℕ} (hdone : s.done_ = true) (hw : s.worker = .exited)
    (ht : s.threads t = .waiting n) :
    CanReturn pipe t s ↔ ∃ e ∈ s.callbacks_, e.node = n ∧ e.state = .detached__ := by
  constructor
  · intro hreturns
    by_contra hnone
    have hstranded : Stranded t n s :=
      ⟨hdone, ht, fun e he hn hstate => hnone ⟨e, he, hn, hstate⟩⟩
    exact hstranded.not_canReturn hreturns
  · rintro ⟨e, he, rfl, hstate⟩
    refine ⟨[.wake t], _, ⟨_, .wake ht he (by simp [hw, Worker.HoldsLock]), rfl⟩, ?_⟩
    simp [State.wake, hstate]

/-- The set was computed once more behind the `detach`. -/
theorem wait_returns_detached :
    CanReturn 3 true (⟨[⟨0, 5, (), none, .detached__⟩], true, 0, .exited, fun _ => .waiting 0, 1,
      false, []⟩ : State Bool Unit) :=
  (wait_returns_iff rfl rfl rfl).mpr ⟨_, List.mem_singleton_self _, rfl, rfl⟩

/-- **A `detach` by another thread behind the destructor** can return if and only if there is no
entry of the descriptor. -/
theorem detach_behind_destroy {t : τ} {fd : ℤ}
    (hs : RunTo (Step pipe) (State.init : State τ κ) before s) (hdone : s.done_ = true)
    (hstep : Step pipe s (.detach (.thread t) fd) s') :
    CanReturn pipe t s' ↔ fd ∉ descriptors s.callbacks_ := by
  obtain hmay : s.MayCall (.thread t) := by
    cases hstep
    assumption
  have hnumbered : Numbered s :=
    hs.invariant (fun _ _ _ hn hstep => hn.step hstep) Numbered.init
  obtain rfl : s' = s.detach (.thread t) fd := by
    cases hstep
    rfl
  cases hfind : findFD fd s.callbacks_ with
  | none =>
      have hgone : fd ∉ descriptors s.callbacks_ := by
        intro hmem
        obtain ⟨e, he, hfd⟩ := List.mem_map.mp hmem
        simpa [hfd] using List.find?_eq_none.mp hfind e he
      refine iff_of_true ⟨[], _, rfl, ?_⟩ hgone
      simpa [State.detach, hfind] using hmay.1
  | some e =>
      obtain ⟨he, hfd⟩ := mem_of_findFD hfind
      have hthere : fd ∈ descriptors s.callbacks_ := hfd ▸ List.mem_map_of_mem he
      have hstranded : Stranded t e.node (s.detach (.thread t) fd) := by
        refine ⟨hstep.done_ hdone, by simp [State.detach, hfind], fun e' he' hn => ?_⟩
        simp only [State.detach, hfind, State.mark] at he'
        obtain ⟨e₀, -, rfl⟩ := List.mem_map.mp he'
        split_ifs at hn ⊢ with hm
        · simp
        · exact absurd hn hm
      exact iff_of_false hstranded.not_canReturn (not_not_intro hthere)

/-- One thread attaches a descriptor, another one detaches it behind the destructor. -/
theorem detach_behind_destroy_attached :
    let s : State Bool Unit :=
      ⟨[⟨0, 5, (), none, .pending_attachment__⟩], true, 2, .top, fun _ => .free, 1, true, []⟩
    ¬ CanReturn 3 false (s.detach (.thread false) 5) := by
  intro s hreturns
  have hs : RunTo (Step 3) State.init [.attach (.thread true) 5 () none, .destroy] s :=
    ⟨_, .attach ⟨rfl, not_false⟩ (by decide), _, .destroy, rfl⟩
  have hstep : Step 3 s (.detach (.thread false) 5) (s.detach (.thread false) 5) :=
    .detach ⟨rfl, not_false⟩
  exact (detach_behind_destroy hs rfl hstep).mp hreturns (by simp [s, descriptors])

end Arachnida.Spin.Private
