import Arachnida.Library.Ownership
import Arachnida.Library.Run

/-!
Objects with a buffer each, that is made when it is asked for, moved by copies, exchanged by swaps
and deleted with the object.

* `BufferKind`: what is in the objects besides, and how it is copied, swapped and rendered.
* `valueStep`: the operations on objects that have their buffers in themselves.
* `Heap`, `heapStep`: the same with addresses, and a heap that the buffers are in.  To delete what
  is not there, or to read it, ends the program.
* `Shows`: the heap shows the buffers that the values have, and every buffer in it has one owner.
* `Shows.step`: **each level does what the other does**; `heap_run_iff`: so do runs.
* `buffer_of_run`: **what all rendered buffers are like** is so of every buffer of a run.
-/

namespace Library

open Function

/-- Contents `C`, buffers `B`, and the memory that copies and buffers are made in. -/
structure BufferKind (C B F M : Type*) where
  /-- The copy, and what is left of the original. -/
  copied : F → C → C × C
  /-- Both, behind a swap. -/
  swapped : C → C → C × C
  rendered : C → M → B

/-- What is done with the objects.  An assignment makes a copy, swaps with it and destroys it. -/
inductive BufferOp (C F M : Type*) where
  | construct (x : ℕ) (c : C)
  | copy (x : ℕ) (f : F) (source : ℕ)
  | assign (x : ℕ) (f : F) (source : ℕ)
  | swap (x y : ℕ)
  | what (x : ℕ) (raw : Option M)
  | destroy (x : ℕ)

variable {C B F M : Type*} (K : BufferKind C B F M)

/-! ### Values -/

/-- The objects there are, with their buffers. -/
abbrev Values (C B : Type*) := ℕ → Option (C × Option B)

/-- An operation on values. -/
def valueStep (pool : Values C B) : BufferOp C F M → Option (Values C B)
  | .construct x c => if (pool x).isNone then some (update pool x (some (c, none))) else none
  | .copy x f source =>
      (pool source).bind fun e =>
        if (pool x).isNone then
          some (update (update pool source (some ((K.copied f e.1).2, none))) x
            (some ((K.copied f e.1).1, e.2)))
        else none
  | .assign x f source =>
      (pool source).bind fun e =>
        let pool := update pool source (some ((K.copied f e.1).2, none))
        (pool x).map fun lhs =>
          update pool x (some ((K.swapped lhs.1 (K.copied f e.1).1).1, e.2))
  | .swap x y =>
      (pool x).bind fun e => (pool y).map fun e' =>
        update (update pool y (some ((K.swapped e.1 e'.1).2, e.2))) x
          (some ((K.swapped e.1 e'.1).1, e'.2))
  | .what x raw =>
      (pool x).map fun e => update pool x (some (e.1, e.2.or (raw.map (K.rendered e.1))))
  | .destroy x => (pool x).map fun _ => update pool x none

/-! ### The heap -/

/-- The objects with the addresses of their buffers, and the buffers there are. -/
structure Heap (C B : Type*) where
  objects : ℕ → Option (C × Option ℕ)
  buffers : ℕ → Option B
  resources : Resources

namespace Heap

/-- Nothing. -/
def init : Heap C B := ⟨fun _ => none, fun _ => none, .init⟩

/-- `delete[]`. -/
def delete (h : Heap C B) : Option ℕ → Option (Heap C B)
  | none => some h
  | some a => (h.buffers a).map fun _ =>
      { h with buffers := update h.buffers a none, resources := h.resources.release [a] }

/-- `new[]`, for the object `x`. -/
def new (h : Heap C B) (x : ℕ) (c : C) (buffer : B) : Heap C B where
  objects := update h.objects x (some (c, some h.resources.issued))
  buffers := update h.buffers h.resources.issued (some buffer)
  resources := h.resources.issue

end Heap

/-- An operation on the heap. -/
def heapStep (h : Heap C B) : BufferOp C F M → Option (Heap C B)
  | .construct x c =>
      if (h.objects x).isNone then
        some { h with objects := update h.objects x (some (c, none)) }
      else none
  | .copy x f source =>
      (h.objects source).bind fun e =>
        if (h.objects x).isNone then
          some { h with
            objects := update (update h.objects source (some ((K.copied f e.1).2, none))) x
              (some ((K.copied f e.1).1, e.2)) }
        else none
  | .assign x f source =>
      (h.objects source).bind fun e =>
        let objects := update h.objects source (some ((K.copied f e.1).2, none))
        (objects x).bind fun lhs =>
          -- the copy is destroyed with what the object has had
          { h with
            objects := update objects x
              (some ((K.swapped lhs.1 (K.copied f e.1).1).1, e.2)) }.delete lhs.2
  | .swap x y =>
      (h.objects x).bind fun e => (h.objects y).map fun e' =>
        { h with
          objects := update (update h.objects y (some ((K.swapped e.1 e'.1).2, e.2))) x
            (some ((K.swapped e.1 e'.1).1, e'.2)) }
  | .what x raw =>
      (h.objects x).bind fun e =>
        match e.2, raw with
        | some a, _ => (h.buffers a).map fun _ => h
        | none, none => some h
        | none, some raw => some (h.new x e.1 (K.rendered e.1 raw))
  | .destroy x =>
      (h.objects x).bind fun e => { h with objects := update h.objects x none }.delete e.2

/-! ### What the heap shows -/

/-- An object with what is at an address. -/
def deref (buffers : ℕ → Option B) (e : C × Option ℕ) : C × Option B := (e.1, e.2.bind buffers)

/-- The address that an object has. -/
def addressOf (e : Option (C × Option ℕ)) : List ℕ := (e.bind Prod.snd).toList

/-- The values are what the heap shows, and every buffer in it has one owner. -/
structure Shows (h : Heap C B) (pool : Values C B) : Prop where
  shown : pool = Option.map (deref h.buffers) ∘ h.objects
  live : ∀ a, (h.buffers a).isSome ↔ a < h.resources.issued ∧ a ∉ h.resources.released
  exact : h.resources.Exact (addressOf ∘ h.objects)

variable {K} {h h' : Heap C B} {pool : Values C B} {op : BufferOp C F M}
  {ops : List (BufferOp C F M)} {objects : ℕ → Option (C × Option ℕ)}

lemma shows_init : Shows (.init : Heap C B) fun _ => none :=
  ⟨rfl, fun a => by simp [Heap.init, Resources.init], Resources.Exact.init⟩

/-- Another buffer at an address that nobody has. -/
lemma deref_update {a : ℕ} (ha : ∀ x, a ∉ addressOf (objects x)) (buffers : ℕ → Option B)
    (b : Option B) : Option.map (deref (update buffers a b)) ∘ objects
      = Option.map (deref buffers) ∘ objects := by
  funext x
  rcases hx : objects x with _ | ⟨c, _ | a'⟩
  · simp [hx]
  · simp [hx, deref]
  · have hne : a' ≠ a := by
      rintro rfl
      exact ha x (by simp [addressOf, hx])
    simp [hx, deref, update_of_ne hne]

namespace Shows

/-- The buffer of an object is there. -/
lemma isSome (hs : Shows h pool) {x a : ℕ} (ha : a ∈ addressOf (h.objects x)) :
    (h.buffers a).isSome :=
  (hs.live a).mpr ⟨hs.exact.lt_issued ha, hs.exact.not_both x a ha⟩

/-- Other objects with the same buffers. -/
lemma withObjects (hs : Shows h pool) (objects : ℕ → Option (C × Option ℕ))
    (hexact : h.resources.Exact (addressOf ∘ objects)) :
    Shows { h with objects } (Option.map (deref h.buffers) ∘ objects) :=
  ⟨rfl, hs.live, hexact⟩

/-- **Deleting** the buffer at an address that nobody has any more. -/
lemma delete (hs : Shows h pool) (objects : ℕ → Option (C × Option ℕ)) {p : Option ℕ}
    (hp : ∀ a ∈ p, ∃ x, a ∈ addressOf (h.objects x))
    (hexact : (h.resources.release p.toList).Exact (addressOf ∘ objects)) :
    ∃ h', ({ h with objects } : Heap C B).delete p = some h' ∧
      Shows h' (Option.map (deref h.buffers) ∘ objects) := by
  cases p with
  | none => exact ⟨_, rfl, hs.withObjects objects hexact⟩
  | some a =>
      obtain ⟨x, hx⟩ := hp a rfl
      obtain ⟨b, hb⟩ := Option.isSome_iff_exists.mp (hs.isSome hx)
      have hgone : ∀ y, a ∉ addressOf (objects y) := fun y hy =>
        hexact.not_both y a hy (List.mem_append_left _ (by simp))
      refine ⟨_, by rw [Heap.delete, hb]; rfl, ?_, fun n => ?_, hexact⟩
      · exact (deref_update hgone h.buffers none).symm
      · change (update h.buffers a none n).isSome ↔ n < h.resources.issued ∧
          n ∉ a :: h.resources.released
        by_cases hn : n = a
        · subst hn
          simp
        · rw [update_of_ne hn, hs.live n]
          simp [hn]

/-- A buffer for an object that has none. -/
lemma new (hs : Shows h pool) {x : ℕ} {c : C} (hx : h.objects x = some (c, none)) (b : B) :
    Shows (h.new x c b)
      (update (Option.map (deref h.buffers) ∘ h.objects) x (some (c, some b))) := by
  have hfresh := hs.exact.issued_fresh
  have hissue := hs.exact.issue x
  refine ⟨?_, fun a => ?_, ?_⟩
  · rw [Heap.new, comp_update, deref_update hfresh.2]
    simp [deref]
  · change (update h.buffers h.resources.issued (some b) a).isSome ↔
      a < h.resources.issued + 1 ∧ a ∉ h.resources.released
    by_cases ha : a = h.resources.issued
    · subst ha
      simp [hfresh.1]
    · rw [update_of_ne ha, hs.live a]
      refine and_congr_left fun _ => ?_
      omega
  · rw [Heap.new, comp_update]
    have haddress : addressOf (h.objects x) = [] := by simp [addressOf, hx]
    rw [comp_apply, haddress] at hissue
    exact hissue

/-- **Each level does what the other does.** -/
theorem step (hs : Shows h pool) (op : BufferOp C F M) :
    Option.Rel Shows (heapStep K h op) (valueStep K pool op) := by
  obtain rfl := hs.shown
  cases op with
  | construct x c =>
      cases hx : h.objects x with
      | some e =>
          simp only [heapStep, valueStep, comp_apply, hx, Option.map_some, Option.isNone_some]
          exact .none
      | none =>
          simp only [heapStep, valueStep, comp_apply, hx, Option.map_none, Option.isNone_none,
            if_true]
          refine .some ?_
          have hexact : h.resources.Exact (addressOf ∘ update h.objects x (some (c, none))) := by
            rw [comp_update, update_eq_self_iff.mpr]
            · exact hs.exact
            · simp [addressOf, hx]
          have hshows := hs.withObjects _ hexact
          rwa [comp_update] at hshows
  | copy x f source =>
      cases hsource : h.objects source with
      | none =>
          simp only [heapStep, valueStep, comp_apply, hsource, Option.map_none, Option.bind_none]
          exact .none
      | some e =>
          cases hx : h.objects x with
          | some e' =>
              simp only [heapStep, valueStep, comp_apply, hsource, hx, Option.map_some,
                Option.bind_some, Option.isNone_some]
              exact .none
          | none =>
              simp only [heapStep, valueStep, comp_apply, hsource, hx, Option.map_none,
                Option.map_some, Option.bind_some, Option.isNone_none, if_true]
              refine .some ?_
              -- the address moves to where there was none
              have hmove := hs.exact.swap x source
              rw [Equiv.comp_swap_eq_update, comp_apply, comp_apply, hx, hsource] at hmove
              have hshows := hs.withObjects (update (update h.objects source
                (some ((K.copied f e.1).2, none))) x (some ((K.copied f e.1).1, e.2)))
                (by rw [comp_update, comp_update]; exact hmove)
              rwa [comp_update, comp_update] at hshows
  | assign x f source =>
      cases hsource : h.objects source with
      | none =>
          simp only [heapStep, valueStep, comp_apply, hsource, Option.map_none, Option.bind_none]
          exact .none
      | some e =>
          simp only [heapStep, valueStep, comp_apply, hsource, Option.map_some, Option.bind_some]
          by_cases hne : x = source
          · subst hne
            simp only [update_self, Option.map_some, Option.bind_some, update_idem]
            refine .some ?_
            have hexact : h.resources.Exact (addressOf ∘ update h.objects x
                (some ((K.swapped (K.copied f e.1).2 (K.copied f e.1).1).1, e.2))) := by
              rw [comp_update, update_eq_self_iff.mpr]
              · exact hs.exact
              · simp [addressOf, hsource]
            have hshows := hs.withObjects _ hexact
            rwa [comp_update] at hshows
          · simp only [update_of_ne hne, comp_apply]
            cases hx : h.objects x with
            | none =>
                simp only [Option.map_none, Option.bind_none]
                exact .none
            | some lhs =>
                simp only [Option.map_some, Option.bind_some]
                have hrelease := (hs.exact.release x).swap x source
                rw [Equiv.comp_swap_eq_update, update_self, update_of_ne (Ne.symm hne),
                  update_comm (Ne.symm hne), update_idem, comp_apply, comp_apply, hx, hsource,
                  update_comm hne] at hrelease
                obtain ⟨h', hdelete, hshows⟩ := hs.delete (p := lhs.2) (update (update
                  h.objects source (some ((K.copied f e.1).2, none))) x
                  (some ((K.swapped lhs.1 (K.copied f e.1).1).1, e.2)))
                  (fun a ha => ⟨x, by simp [addressOf, hx, Option.mem_def.mp ha]⟩)
                  (by rw [comp_update, comp_update]; exact hrelease)
                rw [hdelete]
                rw [comp_update, comp_update] at hshows
                exact .some hshows
  | swap x y =>
      cases hx : h.objects x with
      | none =>
          simp only [heapStep, valueStep, comp_apply, hx, Option.map_none, Option.bind_none]
          exact .none
      | some e =>
          cases hy : h.objects y with
          | none =>
              simp only [heapStep, valueStep, comp_apply, hx, hy, Option.map_none,
                Option.map_some, Option.bind_some]
              exact .none
          | some e' =>
              simp only [heapStep, valueStep, comp_apply, hx, hy, Option.map_some,
                Option.bind_some]
              refine .some ?_
              have hswap := hs.exact.swap x y
              rw [Equiv.comp_swap_eq_update, comp_apply, comp_apply, hx, hy] at hswap
              have hshows := hs.withObjects (update (update h.objects y
                (some ((K.swapped e.1 e'.1).2, e.2))) x (some ((K.swapped e.1 e'.1).1, e'.2)))
                (by rw [comp_update, comp_update]; exact hswap)
              rwa [comp_update, comp_update] at hshows
  | what x raw =>
      cases hx : h.objects x with
      | none =>
          simp only [heapStep, valueStep, comp_apply, hx, Option.map_none, Option.bind_none]
          exact .none
      | some e =>
          obtain ⟨c, _ | a⟩ := e
          · cases raw with
            | none =>
                simp only [heapStep, valueStep, comp_apply, hx, Option.map_some, Option.bind_some]
                refine .some ?_
                rw [update_eq_self_iff.mpr]
                · exact hs
                · simp [deref, hx]
            | some raw =>
                simp only [heapStep, valueStep, comp_apply, hx, Option.map_some, Option.bind_some]
                exact .some (hs.new hx (K.rendered c raw))
          · have hlive := hs.isSome (a := a) (x := x) (by simp [addressOf, hx])
            obtain ⟨b, hb⟩ := Option.isSome_iff_exists.mp hlive
            simp only [heapStep, valueStep, comp_apply, hx, Option.map_some, Option.bind_some, hb]
            refine .some ?_
            rw [update_eq_self_iff.mpr]
            · exact hs
            · simp [deref, hx, hb]
  | destroy x =>
      cases hx : h.objects x with
      | none =>
          simp only [heapStep, valueStep, comp_apply, hx, Option.map_none, Option.bind_none]
          exact .none
      | some e =>
          simp only [heapStep, valueStep, comp_apply, hx, Option.map_some, Option.bind_some]
          have hrelease := hs.exact.release x
          rw [comp_apply, hx] at hrelease
          obtain ⟨h', hdelete, hshows⟩ := hs.delete (p := e.2) (update h.objects x none)
            (fun a ha => ⟨x, by simp [addressOf, hx, Option.mem_def.mp ha]⟩)
            (by rw [comp_update]; exact hrelease)
          rw [hdelete]
          rw [comp_update] at hshows
          exact .some hshows

end Shows

/-- A run on the heap shows one with values. -/
lemma heap_run_shows (hrun : RunTo (stepOf (heapStep K)) .init ops h) :
    ∃ pool, RunTo (stepOf (valueStep K)) (fun _ => none) ops pool ∧ Shows h pool := by
  refine hrun.simulated (R := Shows) ?_ shows_init
  intro h op h' pool hs hstep
  have hrel := hs.step (K := K) op
  rw [show heapStep K h op = some h' from hstep] at hrel
  cases hvalue : valueStep K pool op with
  | none =>
      rw [hvalue] at hrel
      cases hrel
  | some pool' =>
      rw [hvalue] at hrel
      cases hrel with
      | some hshows => exact ⟨pool', hvalue, hshows⟩

/-- What one level does, the other does. -/
theorem heap_run_iff : RunTo (stepOf (valueStep K)) (fun _ => none) ops pool ↔
    ∃ h, RunTo (stepOf (heapStep K)) .init ops h ∧ Shows h pool := by
  constructor
  · intro hrun
    refine hrun.simulated (R := fun pool h => Shows h pool) ?_ shows_init
    intro pool op pool' h hs hstep
    have hrel := hs.step (K := K) op
    rw [show valueStep K pool op = some pool' from hstep] at hrel
    cases hheap : heapStep K h op with
    | none =>
        rw [hheap] at hrel
        cases hrel
    | some h' =>
        rw [hheap] at hrel
        cases hrel with
        | some hshows => exact ⟨h', hheap, hshows⟩
  · rintro ⟨h, hrun, hshows⟩
    obtain ⟨pool', hvalues, hshows'⟩ := heap_run_shows hrun
    obtain rfl := hshows.shown.trans hshows'.shown.symm
    exact hvalues

/-! ### What the buffers are like -/

/-- Every buffer has a property. -/
def AllBuffers (P : B → Prop) (pool : Values C B) : Prop :=
  ∀ x e b, pool x = some e → e.2 = some b → P b

section AllBuffers

variable {P : B → Prop}

lemma AllBuffers.update_some (h : AllBuffers P pool) (x : ℕ) (c : C) {buffer : Option B}
    (he : ∀ b, buffer = some b → P b) : AllBuffers P (update pool x (some (c, buffer))) := by
  intro y e' b hy hb
  by_cases hyx : y = x
  · subst hyx
    rw [update_self] at hy
    obtain rfl := Option.some.inj hy
    exact he b hb
  · rw [update_of_ne hyx] at hy
    exact h y e' b hy hb

lemma AllBuffers.update_none (h : AllBuffers P pool) (x : ℕ) :
    AllBuffers P (update pool x none) := by
  intro y e b hy hb
  by_cases hyx : y = x
  · subst hyx
    rw [update_self] at hy
    cases hy
  · rw [update_of_ne hyx] at hy
    exact h y e b hy hb

/-- An operation moves buffers, or renders one. -/
lemma AllBuffers.step {pool' : Values C B} (hP : ∀ c raw, P (K.rendered c raw))
    (h : AllBuffers P pool) (hs : valueStep K pool op = some pool') : AllBuffers P pool' := by
  have hnone : ∀ b : B, none = some b → P b := fun b hb => nomatch hb
  cases op with
  | construct x c =>
      simp only [valueStep, Option.ite_none_right_eq_some] at hs
      obtain ⟨-, hpool⟩ := hs
      obtain rfl := Option.some.inj hpool
      exact h.update_some x c hnone
  | copy x f source =>
      simp only [valueStep, Option.bind_eq_some_iff, Option.ite_none_right_eq_some] at hs
      obtain ⟨e, he, -, hpool⟩ := hs
      obtain rfl := Option.some.inj hpool
      exact (h.update_some source _ hnone).update_some x _ fun b hb => h source e b he hb
  | assign x f source =>
      simp only [valueStep, Option.bind_eq_some_iff, Option.map_eq_some_iff] at hs
      obtain ⟨e, he, lhs, -, rfl⟩ := hs
      exact (h.update_some source _ hnone).update_some x _ fun b hb => h source e b he hb
  | swap x y =>
      simp only [valueStep, Option.bind_eq_some_iff, Option.map_eq_some_iff] at hs
      obtain ⟨e, he, e', he', rfl⟩ := hs
      have hleft := h.update_some y (K.swapped e.1 e'.1).2 fun b hb => h x e b he hb
      exact hleft.update_some x _ fun b hb => h y e' b he' hb
  | what x raw =>
      simp only [valueStep, Option.map_eq_some_iff] at hs
      obtain ⟨⟨c, buffer⟩, he, rfl⟩ := hs
      refine h.update_some x c fun b hb => ?_
      cases buffer with
      | some b' =>
          obtain rfl := Option.some.inj hb
          exact h x _ b' he rfl
      | none =>
          obtain ⟨raw', -, rfl⟩ := Option.map_eq_some_iff.mp hb
          exact hP c raw'
  | destroy x =>
      simp only [valueStep, Option.map_eq_some_iff] at hs
      obtain ⟨-, -, rfl⟩ := hs
      exact h.update_none x

/-- **What all rendered buffers are like** is so of the buffer of every object on the heap. -/
theorem buffer_of_run (hP : ∀ c raw, P (K.rendered c raw))
    (hrun : RunTo (stepOf (heapStep K)) .init ops h) {x a : ℕ} {c : C}
    (hx : h.objects x = some (c, some a)) : ∃ b, h.buffers a = some b ∧ P b := by
  obtain ⟨pool, hvalues, hshows⟩ := heap_run_shows hrun
  have hempty : AllBuffers P (fun _ => none : Values C B) := fun _ _ _ he => nomatch he
  have hall : AllBuffers P pool :=
    hvalues.invariant (fun _ _ _ hall hstep => AllBuffers.step hP hall hstep) hempty
  obtain ⟨b, hb⟩ := Option.isSome_iff_exists.mp (hshows.isSome (x := x) (a := a)
    (by simp [addressOf, hx]))
  refine ⟨b, hb, hall x (c, some b) b ?_ rfl⟩
  rw [hshows.shown, comp_apply, hx]
  simp [deref, hb]

end AllBuffers

end Library
