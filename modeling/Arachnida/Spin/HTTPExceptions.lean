import Arachnida.Library.Bytes
import Arachnida.Library.Run

/-!
The exceptions that carry a piece of what the peer sent: `InvalidHeader`, `UnknownMethod` and
`UnsupportedProtocol` (`lib/Spin/Exceptions/HTTP`).

* `Kind`, `HTTPError`: what the three differ in, and an exception, whose array is one longer than
  what is ever copied out of it.
* `construct`, `copy`, `swap`, `what`: its operations.  An array begins with whatever was in its
  memory.
* `step`, `textStep`: a program with such exceptions, and what it is about, that each of them has
  a text.
* `Kept`: the text ends in a NUL in the array and in what `what` returns.
* `run_holds`: **of each text so much is kept as the operations copy**; `text_kept_iff`: **with its
  NUL that is all of it exactly if it is shorter than what is copied.**
-/

namespace Arachnida.Spin.Exceptions

open Library

/-! ### Arrays -/

/-- The bytes of an array. -/
abbrev Raw (n : ℕ) := { b : Bytes // b.length = n }

/-- `std::copy` to the beginning of an array. -/
def overwrite {n : ℕ} (new : Bytes) (h : new.length ≤ n) (old : Raw n) : Raw n :=
  ⟨new ++ old.1.drop new.length, by
    rw [List.length_append, List.length_drop, old.2, Nat.add_sub_cancel' h]⟩

/-- A text with its NUL, at the beginning of an array. -/
def Terminated (text buffer : Bytes) : Prop := text ++ [0] <+: buffer

lemma prefix_overwrite {n : ℕ} {new l : Bytes} (hl : l <+: new) (h : new.length ≤ n)
    (old : Raw n) : l <+: (overwrite new h old).1 := hl.trans (List.prefix_append _ _)

/-- What is not longer than so many elements is in front of so many. -/
lemma prefix_take {l m : Bytes} {n : ℕ} (h : l <+: m) (hn : l.length ≤ n) : l <+: m.take n :=
  List.prefix_take_iff.mpr ⟨h, hn⟩

lemma Terminated.length_lt {text buffer : Bytes} (h : Terminated text buffer) :
    text.length < buffer.length := by
  have hle := List.IsPrefix.length_le h
  rw [List.length_append, List.length_singleton] at hle
  omega

/-! ### The exceptions -/

/-- What the three classes differ in: the text that `std::runtime_error` gets, `error_text__`, and
the size `max_header_size__`, `max_method_size__` or `max_protocol_size__`. -/
structure Kind where
  message : Bytes
  errorText : Bytes
  maxSize : ℕ
  deriving DecidableEq, Repr

/-- `InvalidHeader`. -/
def InvalidHeader : Kind := ⟨bytes "Invalid header field.", bytes "Invalid header field: ", 96⟩

/-- `UnknownMethod`. -/
def UnknownMethod : Kind := ⟨bytes "Unknown method.", bytes "Unknown method: ", 96⟩

/-- `UnsupportedProtocol`. -/
def UnsupportedProtocol : Kind :=
  ⟨bytes "Unsupported protocol.", bytes "Unsupported protocol: ", 96⟩

/-- An exception: `header_content_` or `protocol_`, and what `what_` points to. -/
structure HTTPError (k : Kind) where
  content : Raw (k.maxSize + 1)
  what_ : Option (Raw (k.errorText.length + k.maxSize))

/-- What `what` returns: `what_`, or the text of `std::runtime_error` where there was no memory. -/
inductive What (k : Kind) where
  | buffer (what_ : Raw (k.errorText.length + k.maxSize))
  | message (text : Bytes)

namespace HTTPError

variable {k : Kind}

/-- The part of a range that the constructor copies. -/
def copied (k : Kind) (text : Bytes) : Bytes :=
  if k.maxSize < text.length then text.take k.maxSize else text

lemma copied_eq (k : Kind) (text : Bytes) : copied k text = text.take k.maxSize := by
  rw [copied]
  split
  · rfl
  · next h => rw [List.take_of_length_le (not_lt.mp h)]

lemma length_copied (k : Kind) (text : Bytes) :
    (copied k text ++ [0]).length ≤ k.maxSize + 1 := by
  rw [copied_eq, List.length_append, List.length_take, List.length_singleton]
  omega

/-- Constructed from a range. -/
def construct (fresh : Raw (k.maxSize + 1)) (text : Bytes) : HTTPError k :=
  ⟨overwrite (copied k text ++ [0]) (length_copied k text) fresh, none⟩

/-- The part of the array that is copied and swapped. -/
def front (e : HTTPError k) : Bytes := e.content.1.take k.maxSize

lemma length_front (e : HTTPError k) : e.front.length = k.maxSize := by
  rw [front, List.length_take, e.content.2]
  omega

lemma front_le (e : HTTPError k) : e.front.length ≤ k.maxSize + 1 := by
  rw [length_front]
  omega

/-- The array with another front. -/
def withFront (content : Raw (k.maxSize + 1)) (e : HTTPError k) : Raw (k.maxSize + 1) :=
  overwrite e.front (front_le e) content

/-- Copied: the copy, and what is left of the original. -/
def copy (fresh : Raw (k.maxSize + 1)) (e : HTTPError k) : HTTPError k × HTTPError k :=
  (⟨withFront fresh e, e.what_⟩, { e with what_ := none })

/-- `swap`: both afterwards. -/
def swap (e e' : HTTPError k) : HTTPError k × HTTPError k :=
  (⟨withFront e.content e', e'.what_⟩, ⟨withFront e'.content e, e.what_⟩)

/-- `what`, with the memory that `new` returns, if it does not throw. -/
def what (raw : Option (Raw (k.errorText.length + k.maxSize))) (e : HTTPError k) :
    What k × HTTPError k :=
  match e.what_, raw with
  | some what_, _ => (.buffer what_, e)
  | none, none => (.message k.message, e)
  | none, some raw =>
      let what_ := overwrite (k.errorText ++ e.front)
        (by rw [List.length_append, length_front]) raw
      (.buffer what_, { e with what_ := some what_ })

/-- The text is in the array, with its NUL, and in what `what` returns. -/
structure Kept (text : Bytes) (e : HTTPError k) : Prop where
  content : Terminated (text.take k.maxSize) e.content.1
  what : ∀ raw, ∃ what_, (e.what (some raw)).1 = .buffer what_ ∧
    Terminated (k.errorText ++ text.take k.maxSize) what_.1

/-- So much of a text and its NUL as is copied. -/
def cut (k : Kind) (text : Bytes) : Bytes := (text ++ [0]).take k.maxSize

/-- The exception has so much of the text, and so has what `what` has made of it. -/
structure Holds (text : Bytes) (e : HTTPError k) : Prop where
  content : cut k text <+: e.content.1
  what : ∀ what_, e.what_ = some what_ → k.errorText ++ cut k text <+: what_.1

variable {text text' : Bytes} {e e' : HTTPError k}

lemma length_cut (k : Kind) (text : Bytes) : (cut k text).length ≤ k.maxSize := by
  rw [cut, List.length_take]
  omega

lemma Holds.front (h : Holds text e) : cut k text <+: e.front :=
  prefix_take h.content (length_cut k text)

lemma Holds.construct (fresh : Raw (k.maxSize + 1)) (text : Bytes) :
    Holds text (HTTPError.construct fresh text) := by
  refine ⟨prefix_overwrite ?_ (length_copied k text) fresh, fun what_ h => by cases h⟩
  rw [cut, copied_eq]
  by_cases hlong : k.maxSize ≤ text.length
  · rw [List.take_append_of_le_length hlong]
    exact List.prefix_append _ _
  · rw [List.take_of_length_le (l := text) (by omega)]
    exact List.take_prefix _ _

lemma Holds.copy (fresh : Raw (k.maxSize + 1)) (h : Holds text e) :
    Holds text (e.copy fresh).1 ∧ Holds text (e.copy fresh).2 :=
  ⟨⟨prefix_overwrite h.front (front_le _) fresh, h.what⟩, h.content, fun what_ hw => by cases hw⟩

lemma Holds.swap (h : Holds text e) (h' : Holds text' e') :
    Holds text' (e.swap e').1 ∧ Holds text (e.swap e').2 :=
  ⟨⟨prefix_overwrite h'.front (front_le _) e.content, h'.what⟩,
    prefix_overwrite h.front (front_le _) e'.content, h.what⟩

lemma what_of_some {what_ : Raw (k.errorText.length + k.maxSize)} (h : e.what_ = some what_)
    (raw : Option (Raw (k.errorText.length + k.maxSize))) : e.what raw = (.buffer what_, e) := by
  simp only [HTTPError.what, h]

lemma what_of_none (h : e.what_ = none) : e.what none = (.message k.message, e) := by
  simp only [HTTPError.what, h]

/-- The memory that `what` has got holds the front of the array. -/
lemma what_of_raw (h : e.what_ = none) (raw : Raw (k.errorText.length + k.maxSize)) :
    ∃ what_, k.errorText ++ e.front <+: what_.1 ∧
      e.what (some raw) = (.buffer what_, { e with what_ := some what_ }) := by
  simp only [HTTPError.what, h]
  exact ⟨_, prefix_overwrite (List.prefix_refl _) _ raw, rfl⟩

/-- **`what` returns so much of the text.** -/
lemma Holds.whatText (h : Holds text e) (raw : Raw (k.errorText.length + k.maxSize)) :
    ∃ what_, (e.what (some raw)).1 = .buffer what_ ∧ k.errorText ++ cut k text <+: what_.1 := by
  cases hw : e.what_ with
  | some what_ =>
      rw [what_of_some hw]
      exact ⟨what_, rfl, h.what what_ hw⟩
  | none =>
      obtain ⟨what_, hprefix, hwhat⟩ := what_of_raw hw raw
      rw [hwhat]
      exact ⟨what_, rfl, ((List.prefix_append_right_inj _).mpr h.front).trans hprefix⟩

lemma Holds.afterWhat (h : Holds text e)
    (raw : Option (Raw (k.errorText.length + k.maxSize))) : Holds text (e.what raw).2 := by
  cases hw : e.what_ with
  | some what_ =>
      rw [what_of_some hw]
      exact h
  | none =>
      cases raw with
      | none =>
          rw [what_of_none hw]
          exact h
      | some raw =>
          obtain ⟨what_, hprefix, hwhat⟩ := what_of_raw hw raw
          rw [hwhat]
          refine ⟨h.content, fun what_' hnew => ?_⟩
          obtain rfl := Option.some.inj hnew
          exact ((List.prefix_append_right_inj _).mpr h.front).trans hprefix

/-- **A text is kept exactly if it is shorter than what is copied.** -/
theorem Holds.kept_iff (h : Holds text e) : Kept text e ↔ text.length < k.maxSize := by
  constructor
  · intro hkept
    -- the memory for `what` has no place for the NUL behind a text that fills the front
    obtain ⟨what_, -, hterm⟩ := hkept.what
      ⟨List.replicate (k.errorText.length + k.maxSize) 0, List.length_replicate⟩
    have hlt := hterm.length_lt
    rw [what_.2, List.length_append, List.length_take] at hlt
    omega
  · intro hshort
    have hcut : cut k text = text ++ [0] := by
      rw [cut, List.take_of_length_le]
      rw [List.length_append, List.length_singleton]
      omega
    have htake : text.take k.maxSize = text := List.take_of_length_le hshort.le
    refine ⟨?_, fun raw => ?_⟩
    · rw [Terminated, htake, ← hcut]
      exact h.content
    · obtain ⟨what_, hreturned, hprefix⟩ := h.whatText raw
      refine ⟨what_, hreturned, ?_⟩
      rw [Terminated, htake, List.append_assoc, ← hcut]
      exact hprefix

end HTTPError

/-! ### Programs -/

/-- What a program does with the exceptions of a kind, each of which has an address. -/
inductive Op (k : Kind) where
  | construct (x : ℕ) (fresh : Raw (k.maxSize + 1)) (text : Bytes)
  | copy (x : ℕ) (fresh : Raw (k.maxSize + 1)) (source : ℕ)
  | assign (x : ℕ) (fresh : Raw (k.maxSize + 1)) (source : ℕ)
  | swap (x y : ℕ)
  | what (x : ℕ) (raw : Option (Raw (k.errorText.length + k.maxSize)))
  | destroy (x : ℕ)

open Function

/-- The exceptions there are. -/
abbrev Pool (k : Kind) := ℕ → Option (HTTPError k)

/-- An operation.  An assignment makes a copy for `operator=`, which it swaps with. -/
def step {k : Kind} (pool : Pool k) : Op k → Option (Pool k)
  | .construct x fresh text =>
      if (pool x).isNone then some (update pool x (some (.construct fresh text))) else none
  | .copy x fresh source => do
      let e ← pool source
      if (pool x).isNone then
        some (update (update pool source (some (e.copy fresh).2)) x (some (e.copy fresh).1))
      else none
  | .assign x fresh source => do
      let e ← pool source
      let pool := update pool source (some (e.copy fresh).2)
      let lhs ← pool x
      some (update pool x (some (lhs.swap (e.copy fresh).1).1))
  | .swap x y => do
      let e ← pool x
      let e' ← pool y
      some (update (update pool y (some (e.swap e').2)) x (some (e.swap e').1))
  | .what x raw => do
      let e ← pool x
      some (update pool x (some (e.what raw).2))
  | .destroy x => do
      let _ ← pool x
      some (update pool x none)

/-- What the exceptions are about: each has a text. -/
abbrev Texts := ℕ → Option Bytes

/-- What an operation is about. -/
def textStep {k : Kind} (texts : Texts) : Op k → Texts
  | .construct x _ text => update texts x (some text)
  | .copy x _ source => update texts x (texts source)
  | .assign x _ source => update texts x (texts source)
  | .swap x y => update (update texts y (texts x)) x (texts y)
  | .what _ _ => texts
  | .destroy x => update texts x none

/-- The texts behind a run. -/
def textsOf {k : Kind} (ops : List (Op k)) : Texts := ops.foldl textStep fun _ => none

/-- A program gets so far. -/
def Reaches {k : Kind} (ops : List (Op k)) (pool : Pool k) : Prop :=
  RunTo (stepOf step) (fun _ => none) ops pool

variable {k : Kind}

/-- Every exception has so much of its text. -/
def Agrees (pool : Pool k) (texts : Texts) : Prop :=
  ∀ x e, pool x = some e → ∃ text, texts x = some text ∧ e.Holds text

namespace Agrees

variable {pool : Pool k} {texts : Texts} {x : ℕ} {e : HTTPError k} {text : Bytes}

/-- Another exception with another text. -/
lemma update_some (h : Agrees pool texts) (he : e.Holds text) (x : ℕ) :
    Agrees (update pool x (some e)) (update texts x (some text)) := by
  intro y e' hy
  by_cases hyx : y = x
  · subst hyx
    rw [update_self] at hy ⊢
    obtain rfl := Option.some.inj hy
    exact ⟨text, rfl, he⟩
  · rw [update_of_ne hyx] at hy ⊢
    exact h y e' hy

/-- Another exception with the same text. -/
lemma update_same (h : Agrees pool texts) (hx : texts x = some text) (he : e.Holds text) :
    Agrees (update pool x (some e)) texts := by
  have hupdate := h.update_some he x
  rwa [← hx, update_eq_self] at hupdate

/-- One exception less. -/
lemma update_none (h : Agrees pool texts) (x : ℕ) :
    Agrees (update pool x none) (update texts x none) := by
  intro y e' hy
  by_cases hyx : y = x
  · subst hyx
    rw [update_self] at hy
    cases hy
  · rw [update_of_ne hyx] at hy ⊢
    exact h y e' hy

/-- **Every operation does to the exceptions what it does to their texts.** -/
lemma step {op : Op k} {pool' : Pool k} (h : Agrees pool texts)
    (hstep : stepOf Exceptions.step pool op pool') : Agrees pool' (textStep texts op) := by
  rw [stepOf] at hstep
  cases op with
  | construct x fresh text =>
      simp only [Exceptions.step, Option.ite_none_right_eq_some] at hstep
      obtain ⟨-, hpool⟩ := hstep
      obtain rfl := Option.some.inj hpool
      exact h.update_some (.construct fresh text) x
  | copy x fresh source =>
      simp only [Exceptions.step, Option.bind_eq_bind, Option.bind_eq_some_iff,
        Option.ite_none_right_eq_some] at hstep
      obtain ⟨e, he, -, hpool⟩ := hstep
      obtain rfl := Option.some.inj hpool
      obtain ⟨text, htext, hholds⟩ := h source e he
      obtain ⟨hcopy, hleft⟩ := hholds.copy fresh
      rw [textStep, htext]
      exact (h.update_same htext hleft).update_some hcopy x
  | assign x fresh source =>
      simp only [Exceptions.step, Option.bind_eq_bind, Option.bind_eq_some_iff] at hstep
      obtain ⟨e, he, lhs, hlhs, hpool⟩ := hstep
      obtain rfl := Option.some.inj hpool
      obtain ⟨text, htext, hholds⟩ := h source e he
      obtain ⟨hcopy, hleft⟩ := hholds.copy fresh
      have hagrees := h.update_same htext hleft
      obtain ⟨old, -, hold⟩ := hagrees x lhs hlhs
      rw [textStep, htext]
      exact hagrees.update_some (hold.swap hcopy).1 x
  | swap x y =>
      simp only [Exceptions.step, Option.bind_eq_bind, Option.bind_eq_some_iff] at hstep
      obtain ⟨e, he, e', he', hpool⟩ := hstep
      obtain rfl := Option.some.inj hpool
      obtain ⟨text, htext, hholds⟩ := h x e he
      obtain ⟨text', htext', hholds'⟩ := h y e' he'
      obtain ⟨hleft, hright⟩ := hholds.swap hholds'
      rw [textStep, htext, htext']
      exact (h.update_some hright y).update_some hleft x
  | what x raw =>
      simp only [Exceptions.step, Option.bind_eq_bind, Option.bind_eq_some_iff] at hstep
      obtain ⟨e, he, hpool⟩ := hstep
      obtain rfl := Option.some.inj hpool
      obtain ⟨text, htext, hholds⟩ := h x e he
      exact h.update_same htext (hholds.afterWhat raw)
  | destroy x =>
      simp only [Exceptions.step, Option.bind_eq_bind, Option.bind_eq_some_iff] at hstep
      obtain ⟨-, -, hpool⟩ := hstep
      obtain rfl := Option.some.inj hpool
      exact h.update_none x

end Agrees

/-- **Of each text so much is kept as the operations copy**, in every run. -/
theorem run_holds {ops : List (Op k)} {pool : Pool k} (h : Reaches ops pool) :
    Agrees pool (textsOf ops) := by
  have hinit : Agrees (fun _ => none : Pool k) fun _ => none := fun x e he => by cases he
  have hfollows : ∀ (pool : Pool k) op pool' (texts : Texts), Agrees pool texts →
      stepOf step pool op pool' → ∃ texts',
        stepOf (fun texts op => some (textStep texts op)) texts op texts' ∧ Agrees pool' texts' :=
    fun _ _ _ _ hagrees hstep => ⟨_, rfl, hagrees.step hstep⟩
  obtain ⟨texts, hrun, hagrees⟩ := h.simulated hfollows hinit
  rwa [← runTo_total.mp hrun] at hagrees

/-- The text of every exception is kept exactly if it is shorter than this, and so are the arrays
alone. -/
def KeptBelow (k : Kind) (n : ℕ) : Prop :=
  (∀ (ops : List (Op k)) (pool : Pool k), Reaches ops pool → ∀ x e, pool x = some e →
    ∃ text, textsOf ops x = some text ∧ (e.Kept text ↔ text.length < n)) ∧
  ∀ text : Bytes, (∀ (ops : List (Op k)) (pool : Pool k), Reaches ops pool → ∀ x e,
      pool x = some e → textsOf ops x = some text →
      Terminated (text.take k.maxSize) e.content.1) ↔ text.length < n

/-- An array full of ones. -/
def ones (n : ℕ) : Raw n := ⟨List.replicate n 1, List.length_replicate⟩

/-- A program that makes a copy. -/
def copying (k : Kind) (text : Bytes) : List (Op k) :=
  [.construct 0 (ones _) text, .copy 1 (ones _) 0]

/-- What is in the copy. -/
lemma copying_reaches (k : Kind) (text : Bytes) :
    ∃ pool : Pool k, ∃ e, Reaches (copying k text) pool ∧ pool 1 = some e ∧
      textsOf (copying k text) 1 = some text ∧
      e.content.1 = (HTTPError.construct (k := k) (ones _) text).front ++ [1] := by
  refine ⟨_, _, ⟨_, rfl, _, rfl, rfl⟩, rfl, rfl, ?_⟩
  have hlength := HTTPError.length_front (HTTPError.construct (k := k) (ones _) text)
  simp only [HTTPError.copy, HTTPError.withFront, overwrite]
  rw [hlength]
  change _ ++ (List.replicate (k.maxSize + 1) 1).drop k.maxSize = _
  rw [List.drop_replicate, Nat.add_sub_cancel_left]
  rfl

/-- A text that fills the front of the array has no NUL in a copy. -/
lemma copying_unterminated {text : Bytes} (h : k.maxSize ≤ text.length) {e : HTTPError k}
    (he : e.content.1 = (HTTPError.construct (k := k) (ones _) text).front ++ [1]) :
    ¬ Terminated (text.take k.maxSize) e.content.1 := by
  have hcut : HTTPError.cut k text = text.take k.maxSize := by
    rw [HTTPError.cut, List.take_append_of_le_length h]
  have hfront := (HTTPError.Holds.construct (k := k) (ones _) text).front
  have hlength := HTTPError.length_front (HTTPError.construct (k := k) (ones _) text)
  rw [hcut] at hfront
  have heq := hfront.eq_of_length (by rw [hlength, List.length_take]; omega)
  rw [Terminated, he, heq, List.prefix_append_right_inj]
  decide

/-- **The text of an exception is kept exactly if it is shorter than what is copied.** -/
lemma keptBelow (k : Kind) : KeptBelow k k.maxSize := by
  refine ⟨fun ops pool hreach x e hx => ?_, fun text => ⟨fun hall => ?_, fun hshort => ?_⟩⟩
  · obtain ⟨text, htext, hholds⟩ := run_holds hreach x e hx
    exact ⟨text, htext, hholds.kept_iff⟩
  · by_contra hlong
    obtain ⟨pool, e, hreach, he, htext, hcontent⟩ := copying_reaches k text
    exact copying_unterminated (not_lt.mp hlong) hcontent (hall _ pool hreach 1 e he htext)
  · intro ops pool hreach x e hx htext
    obtain ⟨text', htext', hholds⟩ := run_holds hreach x e hx
    obtain rfl := Option.some.inj (htext.symm.trans htext')
    exact (hholds.kept_iff.mpr hshort).content

/-- **The three exceptions keep a text exactly if it has fewer than 96 characters**: a text of 96
fills what is copied, and its NUL stays behind. -/
theorem text_kept_iff (k : Kind) (hk : k ∈ [InvalidHeader, UnknownMethod, UnsupportedProtocol]) :
    KeptBelow k 96 := by
  have hsize : k.maxSize = 96 := by
    simp only [List.mem_cons, List.not_mem_nil, or_false] at hk
    rcases hk with rfl | rfl | rfl <;> rfl
  rw [← hsize]
  exact keptBelow k

/-- A header is kept so. -/
theorem header_kept_iff : InvalidHeader ∈ [InvalidHeader, UnknownMethod, UnsupportedProtocol] ∧
    KeptBelow InvalidHeader 96 :=
  ⟨List.mem_cons_self, text_kept_iff InvalidHeader List.mem_cons_self⟩

/-- **A header of 96 characters**: what `what` returns has no NUL in it, and neither has a copy. -/
theorem header_unterminated :
    (∃ pool : Pool InvalidHeader, ∃ e, Reaches (copying InvalidHeader (List.replicate 96 97)) pool ∧
      pool 1 = some e ∧ ¬ Terminated (List.replicate 96 97) e.content.1) ∧
    ¬ (HTTPError.construct (k := InvalidHeader) (ones _) (List.replicate 96 97)).Kept
      (List.replicate 96 97) := by
  obtain ⟨pool, e, hreach, he, -, hcontent⟩ := copying_reaches InvalidHeader (List.replicate 96 97)
  refine ⟨⟨pool, e, hreach, he, ?_⟩, ?_⟩
  · exact copying_unterminated (k := InvalidHeader) (by decide) hcontent
  · rw [(HTTPError.Holds.construct _ _).kept_iff]
    decide

end Arachnida.Spin.Exceptions
