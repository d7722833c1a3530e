import Arachnida.Library.Run
import Arachnida.Scorpion.Context

/-!
Copy-on-write: whether contexts that were copied from each other stay apart.

* `WellFormed`: cells are taken in order.
* `Coherent`: contexts that share a cell have the same settings, and the `SSL_CTX` in a cell was
  configured from the settings of every context that has it.
* `Isolated`: what the contexts promise, `getContext` on one of them returns what was configured
  from its own settings whichever context was asked before; `Coherent.isolated` and
  `Isolated.coherent`: this is coherence.
* `SafeWrite`: a setter is called where the cell is filled, or is not shared, or where it changes
  nothing.
* `isolated_always_iff`: **the contexts of a run stay isolated exactly when every write is safe.**
* `isolated_fails`: a copy made before the first `getContext`, written to.
-/

namespace Arachnida.Scorpion

open Library

/-! ### One call of `getContext` -/

lemma setUp_complete {fails : SetupCall → Bool} {calls : List SetupCall}
    (h : (setUp fails calls).2 = true) : (setUp fails calls).1 = calls := by
  induction calls with
  | nil => rfl
  | cons call calls ih =>
      rw [setUp] at h ⊢
      split
      · next hf => rw [if_pos hf] at h; cases h
      · next hf => rw [if_neg hf] at h; rw [ih h]

lemma setUp_good (calls : List SetupCall) : setUp Outcomes.good.setup calls = (calls, true) := by
  induction calls with
  | nil => rfl
  | cons call calls ih => rw [setUp, ih]; simp [Outcomes.good]

section GetContext

variable {cells : Cells} {a : Context} {outcomes : Outcomes}

lemma getContext_filled {ssl : SSLContext} (h : cells a.ssl_context_ = some ssl) :
    getContext cells a outcomes = (.ok ssl, cells) := by
  simp only [getContext, h]

lemma getContext_good (h : cells a.ssl_context_ = none) :
    getContext cells a .good = (.ok (.configured a.settings),
      Function.update cells a.ssl_context_ (some (.configured a.settings))) := by
  simp only [getContext, h, setUp_good]
  rfl

/-- A call that does not fail returns the `SSL_CTX` in the cell, or fills it with a configured
one. -/
lemma getContext_ok {ssl : SSLContext} (h : (getContext cells a outcomes).1 = .ok ssl) :
    (cells a.ssl_context_ = some ssl ∧ (getContext cells a outcomes).2 = cells) ∨
      (cells a.ssl_context_ = none ∧ ssl = .configured a.settings ∧
        (getContext cells a outcomes).2 = Function.update cells a.ssl_context_ (some ssl)) := by
  cases hc : cells a.ssl_context_ with
  | some c =>
      rw [getContext_filled hc] at h ⊢
      exact .inl ⟨congrArg some (Except.ok.inj h), rfl⟩
  | none =>
      refine .inr ⟨rfl, ?_⟩
      simp only [getContext, hc] at h ⊢
      split at h
      · cases h
      · next halloc =>
          simp only at h
          split at h
          · next hmade =>
              obtain rfl := Except.ok.inj h
              rw [if_neg halloc]
              exact ⟨by rw [SSLContext.configured, setUp_complete hmade], rfl⟩
          · cases h

end GetContext

/-! ### The invariant -/

/-- Cells are taken in order. -/
structure WellFormed (s : State) : Prop where
  cells : ∀ i, s.next ≤ i → s.cells i = none
  objects : ∀ x a, s.objects x = some a → a.ssl_context_ < s.next

/-- Contexts with the same cell are configured in the same way, and a cell that is filled is
filled accordingly. -/
structure Coherent (s : State) : Prop where
  filled : ∀ x a ssl, s.objects x = some a → s.cells a.ssl_context_ = some ssl →
    ssl = .configured a.settings
  shared : ∀ x y a b, s.objects x = some a → s.objects y = some b →
    a.ssl_context_ = b.ssl_context_ → a.settings = b.settings

/-- What contexts promise: `getContext` on one of them returns what was configured from its own
settings, also behind a `getContext` on any of them, and a setter on one does not change what
`getContext` returns on another. -/
structure Isolated (s : State) : Prop where
  own : ∀ x a, s.objects x = some a →
    (getContext s.cells a .good).1 = .ok (.configured a.settings)
  after : ∀ x y a b, s.objects x = some a → s.objects y = some b →
    (getContext (getContext s.cells b .good).2 a .good).1 = .ok (.configured a.settings)
  setter : ∀ x v s', step s (.set x v) = some s' → ∀ y b, y ≠ x → s.objects y = some b →
    s'.objects y = some b ∧ (getContext s'.cells b .good).1 = (getContext s.cells b .good).1

/-- What a setter does to the state. -/
lemma step_set {s s' : State} {x : ℕ} {v : Setting} (h : step s (.set x v) = some s') :
    ∃ a i, s.objects x = some a ∧ s'.cells = s.cells ∧
      s'.objects = Function.update s.objects x (some ⟨v.assign a.settings, i⟩) ∧
      ((s.cells a.ssl_context_ ≠ none ∧ i = s.next ∧ s'.next = s.next + 1) ∨
        (s.cells a.ssl_context_ = none ∧ i = a.ssl_context_ ∧ s'.next = s.next)) := by
  simp only [step] at h
  split at h
  · cases h
  · next a ha =>
      obtain rfl := Option.some.inj h
      cases hc : s.cells a.ssl_context_ with
      | none => exact ⟨a, a.ssl_context_, ha, by simp [State.copyOnWrite, hc]⟩
      | some ssl => exact ⟨a, s.next, ha, by simp [State.copyOnWrite, hc]⟩

lemma Coherent.isolated {s : State} (h : Coherent s) : Isolated s where
  own := by
    intro x a ha
    cases hc : s.cells a.ssl_context_ with
    | some ssl => rw [getContext_filled hc, h.filled x a ssl ha hc]
    | none => rw [getContext_good hc]
  after := by
    intro x y a b ha hb
    cases hc : s.cells b.ssl_context_ with
    | some ssl =>
        rw [getContext_filled hc]
        cases hc' : s.cells a.ssl_context_ with
        | some ssl' => rw [getContext_filled hc', h.filled x a ssl' ha hc']
        | none => rw [getContext_good hc']
    | none =>
        rw [getContext_good hc]
        by_cases hab : a.ssl_context_ = b.ssl_context_
        · rw [h.shared x y a b ha hb hab]
          exact congrArg Prod.fst (getContext_filled (by simp [hab]))
        · have hsame : Function.update s.cells b.ssl_context_ (some (.configured b.settings))
              a.ssl_context_ = s.cells a.ssl_context_ := Function.update_of_ne hab _ _
          cases hc' : s.cells a.ssl_context_ with
          | some ssl' => rw [getContext_filled (hsame.trans hc'), h.filled x a ssl' ha hc']
          | none => rw [getContext_good (hsame.trans hc')]
  setter := by
    intro x v s' hs y b hy hb
    obtain ⟨a, i, _, hcells, hobjects, _⟩ := step_set hs
    exact ⟨by rw [hobjects, Function.update_of_ne hy, hb], by rw [hcells]⟩

lemma Isolated.coherent {s : State} (h : Isolated s) : Coherent s where
  filled := by
    intro x a ssl ha hc
    have hown := h.own x a ha
    rw [getContext_filled hc] at hown
    exact Except.ok.inj hown
  shared := by
    intro x y a b ha hb hab
    have hafter := h.after x y a b ha hb
    have hown := h.own y b hb
    cases hc : s.cells b.ssl_context_ with
    | some ssl =>
        rw [getContext_filled hc, getContext_filled (hab ▸ hc)] at hafter
        rw [getContext_filled hc] at hown
        exact congrArg SSLContext.settings (Except.ok.inj (hafter.symm.trans hown))
    | none =>
        rw [getContext_good hc, @getContext_filled _ a _ (.configured b.settings) (by simp [hab])]
          at hafter
        exact (congrArg SSLContext.settings (Except.ok.inj hafter)).symm

/-! ### What one operation keeps -/

/-- A setter is called where the cell of the context is filled, or is not shared, or where the
value is the one it already has. -/
def SafeWrite (s : State) : Op → Prop
  | .set x v => ∀ a, s.objects x = some a →
      s.cells a.ssl_context_ ≠ none ∨
        (∀ y b, s.objects y = some b → b.ssl_context_ = a.ssl_context_ → y = x) ∨
        v.assign a.settings = a.settings
  | _ => True

/-- `getContext`, where it is called, does not fail. -/
def Succeeds (s : State) : Op → Prop
  | .getContext x outcomes => ∀ a, s.objects x = some a →
      ∃ ssl, (getContext s.cells a outcomes).1 = .ok ssl
  | _ => True

/-- The operations that only give contexts other names. -/
structure Moves (s s' : State) : Prop where
  cells : s'.cells = s.cells
  next : s'.next = s.next
  objects : ∀ x a, s'.objects x = some a → ∃ y, s.objects y = some a

section Steps

variable {s s' : State} {x y : ℕ}

lemma Moves.wellFormed (h : Moves s s') (hs : WellFormed s) : WellFormed s' where
  cells := by rw [h.cells, h.next]; exact hs.cells
  objects := by
    intro x a ha
    obtain ⟨y, hy⟩ := h.objects x a ha
    rw [h.next]
    exact hs.objects y a hy

lemma Moves.coherent (h : Moves s s') (hs : Coherent s) : Coherent s' where
  filled := by
    intro x a ssl ha hc
    obtain ⟨y, hy⟩ := h.objects x a ha
    exact hs.filled y a ssl hy (h.cells ▸ hc)
  shared := by
    intro x y a b ha hb hab
    obtain ⟨x', hx'⟩ := h.objects x a ha
    obtain ⟨y', hy'⟩ := h.objects y b hb
    exact hs.shared x' y' a b hx' hy' hab

lemma moves_copy (h : step s (.copy x y) = some s') : Moves s s' := by
  simp only [step] at h
  split at h
  · next b hx hy =>
      obtain rfl := Option.some.inj h
      refine ⟨rfl, rfl, fun z a ha => ?_⟩
      by_cases hz : z = x
      · subst hz
        exact ⟨y, by simpa [hy] using ha⟩
      · exact ⟨z, by simpa [hz] using ha⟩
  · cases h

lemma moves_assign (h : step s (.assign x y) = some s') : Moves s s' := by
  simp only [step] at h
  split at h
  · next b hx hy =>
      obtain rfl := Option.some.inj h
      refine ⟨rfl, rfl, fun z a ha => ?_⟩
      by_cases hz : z = x
      · subst hz
        exact ⟨y, by simpa [hy] using ha⟩
      · exact ⟨z, by simpa [hz] using ha⟩
  · cases h

lemma moves_swap (h : step s (.swap x y) = some s') : Moves s s' := by
  simp only [step] at h
  split at h
  · next a b hx hy =>
      obtain rfl := Option.some.inj h
      refine ⟨rfl, rfl, fun z c hc => ?_⟩
      by_cases hzy : z = y
      · subst hzy
        exact ⟨x, by simpa [hx] using hc⟩
      · by_cases hzx : z = x
        · subst hzx
          exact ⟨y, by simpa [hzy, hy] using hc⟩
        · exact ⟨z, by simpa [hzy, hzx] using hc⟩
  · cases h

lemma moves_destroy (h : step s (.destroy x) = some s') : Moves s s' := by
  simp only [step] at h
  split at h
  · cases h
  · obtain rfl := Option.some.inj h
    refine ⟨rfl, rfl, fun z a ha => ?_⟩
    by_cases hz : z = x
    · subst hz
      simp at ha
    · exact ⟨z, by simpa [hz] using ha⟩

/-- What a construction does to the state. -/
lemma step_construct {flags : BitVec 32} {depth : UInt32}
    (h : step s (.construct x flags depth) = some s') :
    s'.cells = s.cells ∧ s'.next = s.next + 1 ∧
      s'.objects = Function.update s.objects x (some ⟨.new flags depth, s.next⟩) := by
  simp only [step] at h
  split at h
  · cases h
  · obtain rfl := Option.some.inj h
    exact ⟨rfl, rfl, rfl⟩

/-- What `getContext` does to the state. -/
lemma step_getContext {outcomes : Outcomes} (h : step s (.getContext x outcomes) = some s') :
    ∃ a, s.objects x = some a ∧ s'.objects = s.objects ∧ s'.next = s.next ∧
      s'.cells = (getContext s.cells a outcomes).2 := by
  simp only [step] at h
  split at h
  · cases h
  · next a ha =>
      obtain rfl := Option.some.inj h
      exact ⟨a, ha, rfl, rfl, rfl⟩

/-- `getContext` writes no cell but its own. -/
lemma getContext_cells {cells : Cells} {a : Context} {outcomes : Outcomes} {i : ℕ}
    (h : i ≠ a.ssl_context_) : (getContext cells a outcomes).2 i = cells i := by
  simp only [getContext]
  split
  · rfl
  · split
    · rfl
    · exact Function.update_of_ne h _ _

/-- An object of a state with one object replaced. -/
lemma update_cases {objects : ℕ → Option Context} {a b : Context} {z : ℕ}
    (h : Function.update objects x (some b) z = some a) :
    (z = x ∧ a = b) ∨ (z ≠ x ∧ objects z = some a) := by
  by_cases hz : z = x
  · subst hz
    rw [Function.update_self] at h
    exact .inl ⟨rfl, (Option.some.inj h).symm⟩
  · rw [Function.update_of_ne hz] at h
    exact .inr ⟨hz, h⟩

/-- Every operation takes cells in order. -/
lemma WellFormed.step (h : WellFormed s) {op : Op} (hs : step s op = some s') :
    WellFormed s' := by
  cases op with
  | construct x flags depth =>
      obtain ⟨hcells, hnext, hobjects⟩ := step_construct hs
      refine ⟨fun i hi => ?_, fun z a ha => ?_⟩
      · rw [hcells]
        exact h.cells i (by omega)
      · rw [hobjects] at ha
        obtain ⟨-, rfl⟩ | ⟨-, ha⟩ := update_cases ha
        · simp [hnext]
        · have := h.objects z a ha
          omega
  | copy x y => exact (moves_copy hs).wellFormed h
  | assign x y => exact (moves_assign hs).wellFormed h
  | swap x y => exact (moves_swap hs).wellFormed h
  | set x v =>
      obtain ⟨a, i, ha, hcells, hobjects, hi⟩ := step_set hs
      have hcell := h.objects x a ha
      refine ⟨fun j hj => ?_, fun z b hb => ?_⟩
      · rw [hcells]
        exact h.cells j (by omega)
      · rw [hobjects] at hb
        obtain ⟨-, rfl⟩ | ⟨-, hb⟩ := update_cases hb
        · show i < s'.next
          omega
        · have := h.objects z b hb
          omega
  | getContext x outcomes =>
      obtain ⟨a, ha, hobjects, hnext, hcells⟩ := step_getContext hs
      have hcell := h.objects x a ha
      refine ⟨fun i hi => ?_, fun z b hb => ?_⟩
      · rw [hcells, getContext_cells (by omega)]
        exact h.cells i (by omega)
      · rw [hnext]
        exact h.objects z b (hobjects ▸ hb)
  | destroy x => exact (moves_destroy hs).wellFormed h

/-- A fresh context has a cell of its own. -/
lemma Coherent.construct (hw : WellFormed s) (h : Coherent s) {flags : BitVec 32} {depth : UInt32}
    (hs : Scorpion.step s (.construct x flags depth) = some s') : Coherent s' := by
  obtain ⟨hcells, -, hobjects⟩ := step_construct hs
  constructor
  · intro z a ssl ha hc
    rw [hobjects] at ha
    rw [hcells] at hc
    obtain ⟨-, rfl⟩ | ⟨-, ha⟩ := update_cases ha
    · rw [hw.cells _ le_rfl] at hc
      cases hc
    · exact h.filled z a ssl ha hc
  · intro z w a b ha hb hab
    rw [hobjects] at ha hb
    obtain ⟨-, rfl⟩ | ⟨-, ha⟩ := update_cases ha <;> obtain ⟨-, rfl⟩ | ⟨-, hb⟩ := update_cases hb
    · rfl
    · exact absurd hab (hw.objects w b hb).ne'
    · exact absurd hab (hw.objects z a ha).ne
    · exact h.shared z w a b ha hb hab

/-- A `getContext` that does not fail fills the cell for all that share it. -/
lemma Coherent.getContext (h : Coherent s) {outcomes : Outcomes}
    (hN : Succeeds s (.getContext x outcomes))
    (hs : Scorpion.step s (.getContext x outcomes) = some s') : Coherent s' := by
  obtain ⟨a, ha, hobjects, -, hcells⟩ := step_getContext hs
  obtain ⟨ssl, hok⟩ := hN a ha
  constructor
  · intro z b c hb hc
    rw [hobjects] at hb
    rw [hcells] at hc
    obtain ⟨-, hsame⟩ | ⟨-, hssl, hfilled⟩ := getContext_ok hok
    · exact h.filled z b c hb (hsame ▸ hc)
    · rw [hfilled] at hc
      by_cases hz : b.ssl_context_ = a.ssl_context_
      · rw [hz, Function.update_self] at hc
        rw [h.shared z x b a hb ha hz, ← hssl]
        exact (Option.some.inj hc).symm
      · rw [Function.update_of_ne hz] at hc
        exact h.filled z b c hb hc
  · intro z w b c hb hc hbc
    rw [hobjects] at hb hc
    exact h.shared z w b c hb hc hbc

/-- The cell of a context that was written is empty, so a filled one belongs to another context. -/
lemma filled_set (hw : WellFormed s) {v : Setting} (hs : Scorpion.step s (.set x v) = some s')
    {z : ℕ} {b : Context} {ssl : SSLContext} (hb : s'.objects z = some b)
    (hc : s'.cells b.ssl_context_ = some ssl) :
    s.objects z = some b ∧ s.cells b.ssl_context_ = some ssl := by
  obtain ⟨a, i, ha, hcells, hobjects, hi⟩ := step_set hs
  rw [hobjects] at hb
  rw [hcells] at hc
  obtain ⟨-, rfl⟩ | ⟨-, hb⟩ := update_cases hb
  · obtain ⟨-, rfl, -⟩ | ⟨hempty, rfl, -⟩ := hi
    · rw [hw.cells _ le_rfl] at hc
      cases hc
    · rw [hempty] at hc
      cases hc
  · exact ⟨hb, hc⟩

/-- A setter keeps the contexts coherent exactly if it is a safe write: where the cell is empty
the context keeps it, and all that share it have to have the same settings. -/
lemma coherent_set_iff (hw : WellFormed s) (h : Coherent s) {v : Setting}
    (hs : Scorpion.step s (.set x v) = some s') : Coherent s' ↔ SafeWrite s (.set x v) := by
  obtain ⟨a, i, ha, hcells, hobjects, hi⟩ := step_set hs
  constructor
  · intro h' a' ha'
    obtain rfl : a = a' := Option.some.inj (ha ▸ ha')
    obtain ⟨hfull, -, -⟩ | ⟨hempty, rfl, -⟩ := hi
    · exact .inl hfull
    · refine .inr ?_
      by_cases hown : ∀ y b, s.objects y = some b → b.ssl_context_ = a.ssl_context_ → y = x
      · exact .inl hown
      · right
        push Not at hown
        obtain ⟨y, b, hb, hab, hy⟩ := hown
        have hshared := h'.shared x y ⟨v.assign a.settings, a.ssl_context_⟩ b
          (by rw [hobjects, Function.update_self])
          (by rw [hobjects, Function.update_of_ne hy, hb]) hab.symm
        rw [h.shared x y a b ha hb hab.symm]
        rw [h.shared x y a b ha hb hab.symm] at hshared
        exact hshared
  · intro hsafe
    constructor
    · intro z b ssl hb hc
      obtain ⟨hb, hc⟩ := filled_set hw hs hb hc
      exact h.filled z b ssl hb hc
    · -- what the written context shares its cell with
      have hmine : ∀ y b, y ≠ x → s.objects y = some b → i = b.ssl_context_ →
          v.assign a.settings = b.settings := by
        intro y b hy hb hib
        obtain ⟨-, rfl, -⟩ | ⟨hempty, rfl, -⟩ := hi
        · exact absurd hib (hw.objects y b hb).ne'
        · obtain hfull | hown | hsame := hsafe a ha
          · exact absurd hempty hfull
          · exact absurd (hown y b hb hib.symm) hy
          · rw [hsame]
            exact h.shared x y a b ha hb hib
      intro z w b c hb hc hbc
      rw [hobjects] at hb hc
      obtain ⟨-, rfl⟩ | ⟨hz, hb⟩ := update_cases hb <;>
        obtain ⟨-, rfl⟩ | ⟨hw', hc⟩ := update_cases hc
      · rfl
      · exact hmine w c hw' hc hbc
      · exact (hmine z b hz hb hbc.symm).symm
      · exact h.shared z w b c hb hc hbc

/-- One operation: coherence is kept exactly by safe writes. -/
lemma coherent_step_iff (hw : WellFormed s) (h : Coherent s) {op : Op} (hN : Succeeds s op)
    (hs : Scorpion.step s op = some s') : Coherent s' ↔ SafeWrite s op := by
  cases op with
  | construct x flags depth => exact ⟨fun _ => trivial, fun _ => h.construct hw hs⟩
  | copy x y => exact ⟨fun _ => trivial, fun _ => (moves_copy hs).coherent h⟩
  | assign x y => exact ⟨fun _ => trivial, fun _ => (moves_assign hs).coherent h⟩
  | swap x y => exact ⟨fun _ => trivial, fun _ => (moves_swap hs).coherent h⟩
  | set x v => exact coherent_set_iff hw h hs
  | getContext x outcomes => exact ⟨fun _ => trivial, fun _ => h.getContext hN hs⟩
  | destroy x => exact ⟨fun _ => trivial, fun _ => (moves_destroy hs).coherent h⟩

end Steps

lemma wellFormed_init : WellFormed .init := ⟨fun _ _ => rfl, fun _ _ h => by cases h⟩

lemma wellFormed_always {ops : List Op} : Always (stepOf step) WellFormed .init ops :=
  always_of_everyStep (Q := fun _ _ => True) (fun _ _ _ hw _ hs => hw.step hs) wellFormed_init
    (everyStep_of_forall fun _ _ _ => trivial)

lemma coherent_init : Coherent .init :=
  ⟨fun _ _ _ h => (nomatch h), fun _ _ _ _ h => (nomatch h)⟩

/-! ### Runs -/

/-- **Copy-on-write.** In every run of constructions, copies, assignments, swaps, setters,
destructions and calls of `getContext` that do not fail, the contexts stay isolated exactly when
every setter is a safe write. -/
theorem isolated_always_iff {ops : List Op} (hN : EveryStep (stepOf step) Succeeds .init ops) :
    Always (stepOf step) Isolated .init ops ↔ EveryStep (stepOf step) SafeWrite .init ops := by
  have keeps : ∀ s op s', (WellFormed s ∧ Coherent s) → Succeeds s op → stepOf step s op s' →
      ((WellFormed s' ∧ Coherent s') ↔ SafeWrite s op) := by
    rintro s op s' ⟨hw, hc⟩ hok hs
    rw [← coherent_step_iff hw hc hok hs]
    exact and_iff_right (hw.step hs)
  rw [← always_iff_everyStep keeps ⟨wellFormed_init, coherent_init⟩ hN]
  constructor
  · intro h
    exact wellFormed_always.and (h.mono fun s hs => hs.coherent)
  · exact fun h => h.mono fun s hs => hs.2.isolated

/-- Where every call of OpenSSL succeeds, so does `getContext`. -/
lemma succeeds_good {s : State} {x : ℕ} : Succeeds s (.getContext x .good) := by
  intro a _
  cases hc : s.cells a.ssl_context_ with
  | some ssl => exact ⟨ssl, congrArg Prod.fst (getContext_filled hc)⟩
  | none => exact ⟨_, congrArg Prod.fst (getContext_good hc)⟩

/-- A copy made behind the first `getContext`, and written to. -/
def lateCopy : List Op :=
  [.construct 0 0 9, .getContext 0 .good, .copy 1 0, .set 1 (.privateKeyFilename (bytes "key.pem")),
    .getContext 1 .good]

theorem isolated_lateCopy : Always (stepOf step) Isolated .init lateCopy := by
  refine (isolated_always_iff ?_).mpr ?_
  · refine everyStep_of_forall fun op hop s => ?_
    simp only [lateCopy, List.mem_cons, List.not_mem_nil, or_false] at hop
    obtain rfl | rfl | rfl | rfl | rfl := hop
    all_goals first | exact succeeds_good | exact trivial
  · simp [lateCopy, EveryStep, stepOf, step, State.init, SafeWrite, getContext, Outcomes.good]

/-- A copy made before the first `getContext`, and written to. -/
def earlyCopy : List Op :=
  [.construct 0 0 9, .copy 1 0, .set 1 (.privateKeyFilename (bytes "key.pem")),
    .getContext 0 .good]

/-- The copy gets an `SSL_CTX` without its private key. -/
theorem isolated_fails :
    EveryStep (stepOf step) Succeeds .init earlyCopy ∧
      ¬ Always (stepOf step) Isolated .init earlyCopy ∧
      ∃ s b, earlyCopy.foldlM step State.init = some s ∧ s.objects 1 = some b ∧
        b.settings.private_key_filename_ = bytes "key.pem" ∧
        (getContext s.cells b .good).1 = .ok (.configured (.new 0 9)) := by
  have hN : EveryStep (stepOf step) Succeeds .init earlyCopy := by
    refine everyStep_of_forall fun op hop s => ?_
    simp only [earlyCopy, List.mem_cons, List.not_mem_nil, or_false] at hop
    obtain rfl | rfl | rfl | rfl := hop
    all_goals first | exact succeeds_good | exact trivial
  obtain ⟨s, b, hs, hb, hkey, hgot⟩ : ∃ s b, earlyCopy.foldlM step State.init = some s ∧
      s.objects 1 = some b ∧ b.settings.private_key_filename_ = bytes "key.pem" ∧
        (getContext s.cells b .good).1 = .ok (.configured (.new 0 9)) :=
    ⟨_, _, rfl, rfl, rfl, by decide +kernel⟩
  refine ⟨hN, fun h => ?_, s, b, hs, hb, hkey, hgot⟩
  have hown := (h.last (runTo_stepOf hs)).own 1 b hb
  rw [hgot] at hown
  have hsettings := congrArg SSLContext.settings (Except.ok.inj hown)
  have hkey' : (Settings.new 0 9).private_key_filename_ = bytes "key.pem" :=
    (congrArg Settings.private_key_filename_ hsettings).trans hkey
  exact absurd hkey' (by decide)

end Arachnida.Scorpion
