import Arachnida.Library.CachedBuffer
import Arachnida.Spin.HTTPExceptions

/-!
The memory of `InvalidHeader`, `UnknownMethod` and `UnsupportedProtocol`: `what_` is a pointer to
what `what` has allocated, a copy takes it from the original, and the destructor deletes it.

* `memory`: the three classes as objects with a buffer each; `Op.inMemory`: their operations.
* `inMemory_step`: what `Exceptions.step` does is what happens to such objects.
* `reaches_iff_memory`: **what a program does to the exceptions it does with their memory**: it
  never deletes or reads what is not allocated, and what is allocated belongs to one exception.
-/

namespace Arachnida.Spin.Exceptions

open Library Function

variable {k : Kind}

/-- An array without a `what_`. -/
def HTTPError.ofContent (content : Raw (k.maxSize + 1)) : HTTPError k := ⟨content, none⟩

/-- Arrays, the buffers that `what` makes of them, and the memory that both begin with. -/
def memory (k : Kind) : BufferKind (Raw (k.maxSize + 1)) (Raw (k.errorText.length + k.maxSize))
    (Raw (k.maxSize + 1)) (Raw (k.errorText.length + k.maxSize)) where
  copied fresh content := (HTTPError.withFront fresh (.ofContent content), content)
  swapped content content' :=
    (HTTPError.withFront content (.ofContent content'),
      HTTPError.withFront content' (.ofContent content))
  rendered content raw := overwrite (k.errorText ++ (HTTPError.ofContent content).front)
    (by rw [List.length_append, HTTPError.length_front]) raw

/-- An exception that is constructed gets its array from a text. -/
def Op.inMemory : Op k → BufferOp (Raw (k.maxSize + 1)) (Raw (k.maxSize + 1))
    (Raw (k.errorText.length + k.maxSize))
  | .construct x fresh text => .construct x (HTTPError.construct fresh text).content
  | .copy x fresh source => .copy x fresh source
  | .assign x fresh source => .assign x fresh source
  | .swap x y => .swap x y
  | .what x raw => .what x raw
  | .destroy x => .destroy x

/-- An exception as its array and its buffer. -/
def HTTPError.parts (e : HTTPError k) :
    Raw (k.maxSize + 1) × Option (Raw (k.errorText.length + k.maxSize)) := (e.content, e.what_)

/-- The exceptions so. -/
def Pool.parts (pool : Pool k) :
    Values (Raw (k.maxSize + 1)) (Raw (k.errorText.length + k.maxSize)) :=
  Option.map HTTPError.parts ∘ pool

variable {pool pool' : Pool k} {x : ℕ} {e : HTTPError k}

lemma parts_injective : Injective (Pool.parts (k := k)) :=
  Injective.comp_left (Option.map_injective fun e e' h => by
    cases e
    cases e'
    cases h
    rfl)

lemma parts_of_some (h : pool x = some e) : pool.parts x = some e.parts := by
  rw [Pool.parts, comp_apply, h, Option.map_some]

lemma parts_of_none (h : pool x = none) : pool.parts x = none := by
  rw [Pool.parts, comp_apply, h, Option.map_none]

lemma parts_update (pool : Pool k) (x : ℕ) (e : Option (HTTPError k)) :
    Pool.parts (update pool x e) = update pool.parts x (e.map HTTPError.parts) :=
  comp_update _ _ _ _

/-- **What is done to the exceptions is done to their arrays and buffers.** -/
lemma inMemory_step (pool : Pool k) (op : Op k) :
    valueStep (memory k) pool.parts op.inMemory = (step pool op).map Pool.parts := by
  cases op with
  | construct x fresh text =>
      cases hx : pool x with
      | some e => simp [Op.inMemory, valueStep, step, parts_of_some hx, hx]
      | none =>
          simp only [Op.inMemory, valueStep, step, parts_of_none hx, hx, Option.isNone_none,
            if_true, Option.map_some, parts_update]
          rfl
  | copy x fresh source =>
      cases hsource : pool source with
      | none => simp [Op.inMemory, valueStep, step, parts_of_none hsource, hsource]
      | some e =>
          cases hx : pool x with
          | some e' =>
              simp [Op.inMemory, valueStep, step, parts_of_some hsource, parts_of_some hx,
                hsource, hx]
          | none =>
              simp only [Op.inMemory, valueStep, step, parts_of_some hsource, parts_of_none hx,
                hsource, hx, Option.bind_eq_bind, Option.bind_some, Option.isNone_none, if_true,
                Option.map_some, parts_update]
              rfl
  | assign x fresh source =>
      cases hsource : pool source with
      | none => simp [Op.inMemory, valueStep, step, parts_of_none hsource, hsource]
      | some e =>
          simp only [Op.inMemory, valueStep, step, parts_of_some hsource, hsource,
            Option.bind_eq_bind, Option.bind_some]
          -- the exception itself, if it is the source, has lost its buffer to the copy
          have hleft : update pool.parts source (some (((memory k).copied fresh e.parts.1).2, none))
              = Pool.parts (update pool source (some (e.copy fresh).2)) := by
            rw [parts_update]
            rfl
          rw [hleft]
          cases hx : update pool source (some (e.copy fresh).2) x with
          | none => rw [parts_of_none hx, Option.map_none, Option.bind_none, Option.map_none]
          | some lhs =>
              rw [parts_of_some hx, Option.map_some, Option.bind_some, Option.map_some,
                parts_update _ x]
              rfl
  | swap x y =>
      cases hx : pool x with
      | none => simp [Op.inMemory, valueStep, step, parts_of_none hx, hx]
      | some e =>
          cases hy : pool y with
          | none =>
              simp [Op.inMemory, valueStep, step, parts_of_some hx, parts_of_none hy, hx, hy]
          | some e' =>
              simp only [Op.inMemory, valueStep, step, parts_of_some hx, parts_of_some hy, hx, hy,
                Option.bind_eq_bind, Option.bind_some, Option.map_some, parts_update]
              rfl
  | what x raw =>
      cases hx : pool x with
      | none => simp [Op.inMemory, valueStep, step, parts_of_none hx, hx]
      | some e =>
          simp only [Op.inMemory, valueStep, step, parts_of_some hx, hx, Option.bind_eq_bind,
            Option.bind_some, Option.map_some, parts_update]
          obtain ⟨content, _ | what_⟩ := e <;> cases raw <;> rfl
  | destroy x =>
      cases hx : pool x with
      | none => simp [Op.inMemory, valueStep, step, parts_of_none hx, hx]
      | some e =>
          simp only [Op.inMemory, valueStep, step, parts_of_some hx, hx, Option.bind_eq_bind,
            Option.bind_some, Option.map_some, parts_update, Option.map_none]

/-- A program with the exceptions, in their memory. -/
lemma reaches_iff_values {ops : List (Op k)} : Reaches ops pool ↔
    RunTo (stepOf (valueStep (memory k))) (fun _ => none) (ops.map Op.inMemory) pool.parts :=
  (runTo_map parts_injective inMemory_step).symm

/-- **What a program does to the exceptions it does with their memory.**  A heap run goes as far as
the program does, where a `delete[]` or a read of what is not allocated would end it; it shows the
same exceptions, and every buffer belongs to one of them or was deleted once. -/
theorem reaches_iff_memory (ops : List (Op k)) (pool : Pool k) : Reaches ops pool ↔
    ∃ h, RunTo (stepOf (heapStep (memory k))) .init (ops.map Op.inMemory) h ∧
      Shows h pool.parts := by
  rw [reaches_iff_values, heap_run_iff]

end Arachnida.Spin.Exceptions
