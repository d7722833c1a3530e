import Mathlib.Tactic
import Mathlib.Data.List.TakeWhile
import Mathlib.Data.List.DropRight

/-!
Scanning a buffer with forward iterators.

An iterator is the part of the buffer from it to the end, so a loop that advances while the
characters satisfy `p` is `List.dropWhile p`.

* `range first last`: what lies between two iterators into one buffer.
* `Stops p l`: the scan for `p` does not advance, `l` being empty or beginning with a character
  outside `p`.
* `dropWhile_append_stops`, `takeWhile_append_stops`: a scan over a run of `p` that stops.
* `run_unique`: a buffer has one such run.
* `rdropWhile_append_stops`: the same from the right.
* `exists_run`: every buffer is a run of `p` followed by a place where the scan stops;
  `exists_last_run` is the same at the end of the buffer.
-/

namespace Library

universe u
variable {α : Type u} {p q : α → Bool} {a b l : List α}

/-- The characters between two iterators into one buffer. -/
def range (first last : List α) : List α := first.take (first.length - last.length)

@[simp] lemma range_append (a b : List α) : range (a ++ b) b = a := by simp [range]

@[simp] lemma range_nil (a : List α) : range a [] = a := by simp [range]

lemma range_append_append (a b c : List α) : range (a ++ (b ++ c)) (b ++ c) = a :=
  range_append a (b ++ c)

/-- Appending to the buffer does not change a range of it. -/
lemma range_append_right {first last : List α} (h : last <:+ first) (c : List α) :
    range (first ++ c) (last ++ c) = range first last := by
  obtain ⟨a, rfl⟩ := h
  rw [List.append_assoc, range_append_append, range_append]

/-! ### Where a scan stops -/

/-- A scan for `p` does not advance here. -/
def Stops (p : α → Bool) : List α → Prop
  | [] => True
  | c :: _ => p c = false

instance : ∀ l : List α, Decidable (Stops p l)
  | [] => isTrue trivial
  | c :: _ => inferInstanceAs (Decidable (p c = false))

@[simp] lemma stops_nil : Stops p ([] : List α) := trivial

@[simp] lemma stops_cons (c : α) (l : List α) : Stops p (c :: l) ↔ p c = false := Iff.rfl

lemma stops_of_all (h : ∀ c ∈ l, p c = false) : Stops p l := by
  cases l with
  | nil => trivial
  | cons c l => exact h c (by simp)

lemma Stops.append (ha : Stops p a) (hne : a ≠ []) (b : List α) : Stops p (a ++ b) := by
  cases a with
  | nil => exact absurd rfl hne
  | cons c a => exact ha

lemma Stops.of_append (h : Stops p (a ++ b)) : Stops p a := by
  cases a with
  | nil => trivial
  | cons c a => exact h

lemma Stops.takeWhile (h : Stops p l) (q : α → Bool) : Stops p (l.takeWhile q) := by
  cases l with
  | nil => trivial
  | cons c l =>
      rw [List.takeWhile_cons]
      split
      · exact h
      · trivial

/-- Scans for opposite classes do not both stop in front of a character. -/
lemma eq_nil_of_stops_not (h : Stops p l) (h' : Stops (fun c => !p c) l) : l = [] := by
  cases l with
  | nil => rfl
  | cons c l =>
      rw [stops_cons] at h
      rw [stops_cons, h] at h'
      cases h'

lemma dropWhile_stops (p : α → Bool) (l : List α) : Stops p (l.dropWhile p) := by
  cases h : l.dropWhile p with
  | nil => trivial
  | cons c t =>
      have hc := List.head_dropWhile_not p (l := l) (by simp [h])
      simpa [h] using hc

lemma dropWhile_of_stops (h : Stops p l) : l.dropWhile p = l := by
  cases l with
  | nil => rfl
  | cons c l => rw [List.dropWhile_cons_of_neg (by simpa using h)]

lemma takeWhile_of_stops (h : Stops p l) : l.takeWhile p = [] := by
  cases l with
  | nil => rfl
  | cons c l => rw [List.takeWhile_cons_of_neg (by simpa using h)]

/-- A scan over a run that stops behind it. -/
lemma dropWhile_append_stops (ha : ∀ c ∈ a, p c = true) (hb : Stops p b) :
    (a ++ b).dropWhile p = b := by
  rw [List.dropWhile_append_of_pos ha, dropWhile_of_stops hb]

lemma takeWhile_append_stops (ha : ∀ c ∈ a, p c = true) (hb : Stops p b) :
    (a ++ b).takeWhile p = a := by
  rw [List.takeWhile_append_of_pos ha, takeWhile_of_stops hb, List.append_nil]

/-- A buffer has one run of `p` in front at which the scan stops. -/
lemma run_unique {a' b' : List α} (h : a ++ b = a' ++ b') (ha : ∀ c ∈ a, p c = true)
    (hb : Stops p b) (ha' : ∀ c ∈ a', p c = true) (hb' : Stops p b') : a = a' ∧ b = b' := by
  have htake := congrArg (List.takeWhile p) h
  have hdrop := congrArg (List.dropWhile p) h
  rw [takeWhile_append_stops ha hb, takeWhile_append_stops ha' hb'] at htake
  rw [dropWhile_append_stops ha hb, dropWhile_append_stops ha' hb'] at hdrop
  exact ⟨htake, hdrop⟩

/-- Where the scan stops in front of what is appended, it stops where it did. -/
lemma dropWhile_append_of_stops (hb : Stops p b) (a : List α) :
    (a ++ b).dropWhile p = a.dropWhile p ++ b := by
  rw [List.dropWhile_append]
  split
  · next h => rw [List.isEmpty_iff.mp h, dropWhile_of_stops hb, List.nil_append]
  · rfl

lemma takeWhile_append_of_stops (hb : Stops p b) (a : List α) :
    (a ++ b).takeWhile p = a.takeWhile p := by
  rw [List.takeWhile_append]
  split
  · next h =>
      rw [takeWhile_of_stops hb, List.append_nil]
      exact ((List.takeWhile_prefix p).eq_of_length h).symm
  · rfl

/-- A scan that stops inside the buffer does not see what is appended to it. -/
lemma dropWhile_append_of_ne_nil (h : a.dropWhile p ≠ []) (b : List α) :
    (a ++ b).dropWhile p = a.dropWhile p ++ b := by
  rw [List.dropWhile_append, if_neg (by simpa using h)]

/-- A scan that reaches the end of the buffer goes on in what is appended. -/
lemma dropWhile_append_of_eq_nil (h : a.dropWhile p = []) (b : List α) :
    (a ++ b).dropWhile p = b.dropWhile p :=
  List.dropWhile_append_of_pos (List.dropWhile_eq_nil_iff.mp h)

/-- A token behind a separator: two scans one after the other, the second of which stops inside
the buffer, find the same token in every longer buffer. -/
lemma token_append (p q : α → Bool) {l : List α} (h : (l.dropWhile p).dropWhile q ≠ [])
    (c : List α) :
    (l ++ c).dropWhile p = l.dropWhile p ++ c ∧
      (l.dropWhile p ++ c).dropWhile q = (l.dropWhile p).dropWhile q ++ c ∧
      range (l.dropWhile p ++ c) ((l.dropWhile p).dropWhile q ++ c)
        = range (l.dropWhile p) ((l.dropWhile p).dropWhile q) := by
  have hne : l.dropWhile p ≠ [] := fun h0 => h (by rw [h0]; rfl)
  exact ⟨dropWhile_append_of_ne_nil hne c, dropWhile_append_of_ne_nil h c,
    range_append_right (List.dropWhile_suffix q) c⟩

/-- What lies behind the place where a scan has stopped does not matter, its first character
apart. -/
lemma dropWhile_append_cons {c : α} {x k : List α} (h : (a ++ c :: x).dropWhile p = k ++ c :: x)
    (y : List α) : (a ++ c :: y).dropWhile p = k ++ c :: y := by
  induction a with
  | nil =>
      rw [List.nil_append] at h ⊢
      cases hc : p c with
      | true =>
          rw [List.dropWhile_cons_of_pos hc] at h
          have hle := (List.dropWhile_suffix p (l := x)).length_le
          rw [h, List.length_append, List.length_cons] at hle
          omega
      | false =>
          rw [List.dropWhile_cons_of_neg (by simp [hc])] at h ⊢
          obtain rfl : k = [] := List.append_left_eq_self.mp h.symm
          rfl
  | cons d a ih =>
      rw [List.cons_append] at h ⊢
      cases hd : p d with
      | true =>
          rw [List.dropWhile_cons_of_pos hd] at h ⊢
          exact ih h
      | false =>
          rw [List.dropWhile_cons_of_neg (by simp [hd]), ← List.cons_append] at h ⊢
          rw [List.append_cancel_right h]

/-- Two scans one after the other, and the token between them. -/
lemma token_append_cons (p q : α → Bool) {c : α} {x k : List α}
    (h : ((a ++ c :: x).dropWhile p).dropWhile q = k ++ c :: x) :
    ∃ t, ∀ y, (a ++ c :: y).dropWhile p = t ++ (k ++ c :: y) ∧
      (t ++ (k ++ c :: y)).dropWhile q = k ++ c :: y := by
  obtain ⟨t, ht⟩ : k ++ c :: x <:+ (a ++ c :: x).dropWhile p := h ▸ List.dropWhile_suffix q
  refine ⟨t, fun y => ?_⟩
  have hp : (a ++ c :: x).dropWhile p = (t ++ k) ++ c :: x := by rw [← ht, List.append_assoc]
  rw [hp] at h
  rw [dropWhile_append_cons hp, ← List.append_assoc]
  exact ⟨rfl, dropWhile_append_cons h y⟩

/-- A scan that does not see what `f` changes. -/
lemma dropWhile_map_of_eq {f : α → α} (h : ∀ c, p (f c) = p c) (l : List α) :
    (l.map f).dropWhile p = (l.dropWhile p).map f := by
  rw [List.dropWhile_map]
  exact congrArg (fun q => (l.dropWhile q).map f) (funext h)

/-- Every buffer is a run followed by a place where the scan stops. -/
lemma exists_run (p : α → Bool) (l : List α) :
    ∃ a b, l = a ++ b ∧ (∀ c ∈ a, p c = true) ∧ Stops p b :=
  ⟨l.takeWhile p, l.dropWhile p, List.takeWhile_append_dropWhile.symm,
    fun _ hc => List.mem_takeWhile_imp hc, dropWhile_stops p l⟩

/-! ### From the right -/

/-- The characters that a scan from the right goes through. -/
lemma rdropWhile_append_of_all (hb : ∀ c ∈ b, p c = true) (a : List α) :
    (a ++ b).rdropWhile p = a.rdropWhile p := by
  rw [List.rdropWhile, List.reverse_append,
    List.dropWhile_append_of_pos (by simpa using hb), List.rdropWhile]

/-- A scan from the right over a run that stops in front of it. -/
lemma rdropWhile_append_stops (hb : ∀ c ∈ b, p c = true) (ha : Stops p a.reverse) :
    (a ++ b).rdropWhile p = a := by
  rw [rdropWhile_append_of_all hb, List.rdropWhile, dropWhile_of_stops ha, List.reverse_reverse]

lemma rtakeWhile_append_stops (hb : ∀ c ∈ b, p c = true) (ha : Stops p a.reverse) :
    (a ++ b).rtakeWhile p = b := by
  rw [List.rtakeWhile, List.reverse_append,
    takeWhile_append_stops (by simpa using hb) ha, List.reverse_reverse]

/-- Every buffer ends in a run, in front of which the scan from the right stops. -/
lemma exists_last_run (p : α → Bool) (l : List α) :
    ∃ a b, l = a ++ b ∧ (∀ c ∈ b, p c = true) ∧ Stops p a.reverse :=
  ⟨l.rdropWhile p, l.rtakeWhile p, List.rdropWhile_append_rtakeWhile.symm,
    fun _ hc => List.mem_rtakeWhile_imp hc, by
      rw [List.rdropWhile, List.reverse_reverse]; exact dropWhile_stops p _⟩

end Library
