import Arachnida.Library.Run

/-!
A counter that hands out tickets: taking one and leaving it off again are two actions, so that the
actions of several parties can come in any order.

* `Tickets`: the next ticket, the one that each party holds, and those that were left off.
* `Tickets.Sound`: every ticket that was handed out is held by one party or was left off once.
* `Tickets.run_spec`: **so it is after every run**, which has handed out as many tickets as were
  taken.
-/

namespace Library

universe u
variable {T : Type u}

/-- A counter, and the tickets handed out by it. -/
structure Tickets (T : Type u) where
  next : ℕ
  held : T → Option ℕ
  done : List ℕ

/-- What a party does. -/
inductive TicketAction (T : Type u) where
  | take (t : T)
  | leave (t : T)

namespace Tickets

/-- Nothing has been handed out. -/
def init : Tickets T := ⟨0, fun _ => none, []⟩

/-- A party that holds no ticket takes the next; one that holds a ticket leaves it off. -/
def step [DecidableEq T] (s : Tickets T) : TicketAction T → Option (Tickets T)
  | .take t =>
      match s.held t with
      | none => some ⟨s.next + 1, Function.update s.held t (some s.next), s.done⟩
      | some _ => none
  | .leave t =>
      match s.held t with
      | none => none
      | some k => some { s with held := Function.update s.held t none, done := s.done ++ [k] }

/-- How many tickets are taken. -/
def takes (as : List (TicketAction T)) : ℕ := as.countP fun
  | .take _ => true
  | .leave _ => false

/-- Every ticket that was handed out is held by one party, or was left off once. -/
structure Sound (s : Tickets T) : Prop where
  nodup : s.done.Nodup
  held_unique : ∀ {t t' : T} {k : ℕ}, s.held t = some k → s.held t' = some k → t = t'
  not_done : ∀ {t : T} {k : ℕ}, s.held t = some k → k ∉ s.done
  handed_out : ∀ k, k < s.next ↔ k ∈ s.done ∨ ∃ t, s.held t = some k

lemma Sound.init : Sound (init : Tickets T) where
  nodup := List.nodup_nil
  held_unique := by simp [Tickets.init]
  not_done := by simp [Tickets.init]
  handed_out := by simp [Tickets.init]

variable [DecidableEq T]

/-- What a party may hold after an action of a party. -/
lemma update_eq_some {held : T → Option ℕ} {t u : T} {o : Option ℕ} {k : ℕ} :
    Function.update held t o u = some k ↔ (u = t ∧ o = some k) ∨ (u ≠ t ∧ held u = some k) := by
  by_cases hu : u = t
  · subst hu
    simp
  · simp [hu]

/-- A ticket is taken. -/
lemma Sound.take {s : Tickets T} (hs : s.Sound) {t : T} (hfree : s.held t = none) :
    Sound ⟨s.next + 1, Function.update s.held t (some s.next), s.done⟩ := by
  -- the next ticket is nowhere yet
  have hnew := (hs.handed_out s.next).not.mp (lt_irrefl _)
  push Not at hnew
  obtain ⟨hdone, hheld⟩ := hnew
  refine ⟨hs.nodup, ?_, ?_, ?_⟩
  · intro u u' k hu hu'
    rcases update_eq_some.mp hu with ⟨rfl, hk⟩ | ⟨-, hk⟩ <;>
      rcases update_eq_some.mp hu' with ⟨rfl, hk'⟩ | ⟨-, hk'⟩
    · rfl
    · exact absurd (hk'.trans hk.symm) (hheld u')
    · exact absurd (hk.trans hk'.symm) (hheld u)
    · exact hs.held_unique hk hk'
  · intro u k hu
    rcases update_eq_some.mp hu with ⟨rfl, hk⟩ | ⟨-, hk⟩
    · rwa [← Option.some.inj hk]
    · exact hs.not_done hk
  · intro k
    have hk := hs.handed_out k
    simp only [update_eq_some]
    constructor
    · intro hlt
      rcases Nat.lt_succ_iff_lt_or_eq.mp hlt with hlt | rfl
      · rcases hk.mp hlt with hmem | ⟨u, hu⟩
        · exact .inl hmem
        · refine .inr ⟨u, .inr ⟨?_, hu⟩⟩
          rintro rfl
          cases hfree.symm.trans hu
      · exact .inr ⟨t, .inl ⟨rfl, rfl⟩⟩
    · rintro (hmem | ⟨u, ⟨-, hu⟩ | ⟨-, hu⟩⟩)
      · exact Nat.lt_succ_of_lt (hk.mpr (.inl hmem))
      · rw [← Option.some.inj hu]
        exact Nat.lt_succ_self _
      · exact Nat.lt_succ_of_lt (hk.mpr (.inr ⟨u, hu⟩))

/-- A ticket is left off. -/
lemma Sound.leave {s : Tickets T} (hs : s.Sound) {t : T} {k : ℕ} (hheld : s.held t = some k) :
    Sound { s with held := Function.update s.held t none, done := s.done ++ [k] } := by
  have hother : ∀ {u j}, Function.update s.held t none u = some j → u ≠ t ∧ s.held u = some j := by
    intro u j hu
    rcases update_eq_some.mp hu with ⟨-, hj⟩ | h
    · cases hj
    · exact h
  refine ⟨?_, fun hu hu' => hs.held_unique (hother hu).2 (hother hu').2, ?_, ?_⟩
  · rw [List.nodup_append]
    refine ⟨hs.nodup, List.nodup_singleton k, fun j hj i hi => ?_⟩
    rw [List.mem_singleton.mp hi]
    rintro rfl
    exact hs.not_done hheld hj
  · intro u j hu
    obtain ⟨hne, hj⟩ := hother hu
    rw [List.mem_append, List.mem_singleton, not_or]
    refine ⟨hs.not_done hj, ?_⟩
    rintro rfl
    exact hne (hs.held_unique hj hheld)
  · intro j
    rw [hs.handed_out j, List.mem_append, List.mem_singleton]
    constructor
    · rintro (hmem | ⟨u, hu⟩)
      · exact .inl (.inl hmem)
      · by_cases hut : u = t
        · subst hut
          exact .inl (.inr (Option.some.inj (hu.symm.trans hheld)))
        · exact .inr ⟨u, update_eq_some.mpr (.inr ⟨hut, hu⟩)⟩
    · rintro ((hmem | rfl) | ⟨u, hu⟩)
      · exact .inl hmem
      · exact .inr ⟨t, hheld⟩
      · exact .inr ⟨u, (hother hu).2⟩

/-- A party that is free can take a ticket. -/
lemma step_take {s : Tickets T} {t : T} (hfree : s.held t = none) :
    stepOf step s (.take t)
      ⟨s.next + 1, Function.update s.held t (some s.next), s.done⟩ := by
  rw [stepOf, step, hfree]

/-- A party can leave off the ticket it holds. -/
lemma step_leave {s : Tickets T} {t : T} {k : ℕ} (hheld : s.held t = some k) :
    stepOf step s (.leave t)
      { s with held := Function.update s.held t none, done := s.done ++ [k] } := by
  rw [stepOf, step, hheld]

/-- What a step does. -/
lemma step_cases {s s' : Tickets T} {a : TicketAction T} (h : stepOf step s a s') :
    (∃ t, a = .take t ∧ s.held t = none ∧
      s' = ⟨s.next + 1, Function.update s.held t (some s.next), s.done⟩) ∨
    ∃ t k, a = .leave t ∧ s.held t = some k ∧
      s' = { s with held := Function.update s.held t none, done := s.done ++ [k] } := by
  rw [stepOf] at h
  cases a with
  | take t =>
      rw [step] at h
      split at h
      · next hfree => exact .inl ⟨t, rfl, hfree, (Option.some.inj h).symm⟩
      · cases h
  | leave t =>
      rw [step] at h
      split at h
      · cases h
      · next k hheld => exact .inr ⟨t, k, rfl, hheld, (Option.some.inj h).symm⟩

lemma Sound.step {s s' : Tickets T} {a : TicketAction T} (hs : s.Sound)
    (h : stepOf step s a s') : s'.Sound := by
  obtain ⟨t, rfl, hfree, rfl⟩ | ⟨t, k, rfl, hheld, rfl⟩ := step_cases h
  · exact hs.take hfree
  · exact hs.leave hheld

/-- The counter goes up with every ticket taken. -/
lemma next_run {s s' : Tickets T} {as : List (TicketAction T)}
    (hrun : RunTo (stepOf Tickets.step) s as s') : s'.next = s.next + takes as := by
  induction as generalizing s with
  | nil =>
      obtain rfl : s = s' := hrun
      rfl
  | cons a as ih =>
      obtain ⟨m, hm, hrest⟩ := hrun
      rw [ih hrest]
      obtain ⟨t, rfl, -, rfl⟩ | ⟨t, k, rfl, -, rfl⟩ := step_cases hm
      · simp only [takes, List.countP_cons, if_true]
        omega
      · simp [takes]

/-- **Every ticket of a run is held by one party or was left off once.** -/
theorem run_spec {s : Tickets T} {as : List (TicketAction T)}
    (hrun : RunTo (stepOf Tickets.step) .init as s) : s.Sound ∧ s.next = takes as :=
  ⟨hrun.invariant (fun _ _ _ hs h => hs.step h) .init,
    by rw [next_run hrun, Tickets.init, zero_add]⟩

end Tickets

end Library
