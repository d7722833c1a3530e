import Mathlib.Tactic
import Mathlib.Data.List.TakeWhile

/-!
Backtracking regular expressions with captures, as Perl matches them.

* `Regex`: repeated character classes, sequences, groups that capture and parts that may be left
  out; repetitions are greedy.
* `Regex.attempts`: all the ways to match the beginning of a string, the one that is tried first at
  the head of the list.
* `Regex.fullMatch`: the captures of the first way to match a whole string.
* `Regex.fullMatch_part`: what is captured is a part of the string.
* `Regex.first`: what a continuation makes of the first match that it takes, with one rule for each
  constructor. A repetition before something that cannot begin with its class never gives back
  (`first_plus_only`), and one before something that takes anything does not have to
  (`first_plus_greedy`); `NoGiveBack` is either of the two.
-/

namespace Library

universe u
variable {α β : Type u}

/-- A regular expression over the characters `α`. -/
inductive Regex (α : Type u) where
  /-- One character of a class. -/
  | one (p : α → Bool)
  /-- As many characters of a class as can be, at least one. -/
  | plus (p : α → Bool)
  /-- As many characters of a class as can be. -/
  | star (p : α → Bool)
  | seq (r r' : Regex α)
  /-- Preferably with `r`. -/
  | opt (r : Regex α)
  /-- The part that `r` matches is captured under a number. -/
  | group (n : ℕ) (r : Regex α)

/-- A match of the beginning of a string: what is captured, and the rest of the string. -/
abbrev Match (α : Type u) := List (ℕ × List α) × List α

namespace Regex

/-- The beginnings of a string that a class covers, the longest first, with the rest. -/
def greedy (p : α → Bool) : List α → List (List α × List α)
  | [] => [([], [])]
  | c :: l =>
      if p c then (greedy p l).map (fun m => (c :: m.1, m.2)) ++ [([], c :: l)] else [([], c :: l)]

/-- All the ways to match the beginning of a string, in the order in which they are tried. -/
def attempts : Regex α → List α → List (Match α)
  | .one p, c :: l => if p c then [([], l)] else []
  | .one _, [] => []
  | .plus p, l => ((greedy p l).filter fun m => m.1 ≠ []).map fun m => ([], m.2)
  | .star p, l => (greedy p l).map fun m => ([], m.2)
  | .seq r r', l =>
      (attempts r l).flatMap fun m => (attempts r' m.2).map fun m' => (m.1 ++ m'.1, m'.2)
  | .opt r, l => attempts r l ++ [([], l)]
  | .group n r, l =>
      (attempts r l).map fun m => (m.1 ++ [(n, l.take (l.length - m.2.length))], m.2)

/-- The captures of the first way to match the whole string. -/
def fullMatch (r : Regex α) (l : List α) : Option (List (ℕ × List α)) :=
  ((attempts r l).find? fun m => m.2.isEmpty).map Prod.fst

lemma greedy_suffix {p : α → Bool} {l : List α} {m : List α × List α} (h : m ∈ greedy p l) :
    m.2 <:+ l := by
  induction l generalizing m with
  | nil => obtain rfl := List.mem_singleton.mp h; exact List.suffix_refl _
  | cons c l ih =>
      rw [greedy] at h
      split at h
      · rcases List.mem_append.mp h with h | h
        · obtain ⟨m', hm', rfl⟩ := List.mem_map.mp h
          exact (ih hm').trans (List.suffix_cons c l)
        · obtain rfl := List.mem_singleton.mp h
          exact List.suffix_refl _
      · obtain rfl := List.mem_singleton.mp h
        exact List.suffix_refl _

/-- A match leaves the end of the string and captures parts of it. -/
lemma attempts_spec (r : Regex α) {l : List α} {m : Match α} (h : m ∈ attempts r l) :
    m.2 <:+ l ∧ ∀ c ∈ m.1, c.2 <:+: l := by
  induction r generalizing l m with
  | one p =>
      cases l with
      | nil => simp [attempts] at h
      | cons c l =>
          rw [attempts] at h
          split at h
          · obtain rfl := List.mem_singleton.mp h
            exact ⟨List.suffix_cons c l, by simp⟩
          · simp at h
  | plus p =>
      obtain ⟨m', hm', rfl⟩ := List.mem_map.mp h
      exact ⟨greedy_suffix (List.mem_filter.mp hm').1, by simp⟩
  | star p =>
      obtain ⟨m', hm', rfl⟩ := List.mem_map.mp h
      exact ⟨greedy_suffix hm', by simp⟩
  | seq r r' ih ih' =>
      obtain ⟨m₁, hm₁, h⟩ := List.mem_flatMap.mp h
      obtain ⟨m₂, hm₂, rfl⟩ := List.mem_map.mp h
      obtain ⟨hs, hc⟩ := ih hm₁
      obtain ⟨hs', hc'⟩ := ih' hm₂
      refine ⟨hs'.trans hs, fun c hm => ?_⟩
      rcases List.mem_append.mp hm with hm | hm
      · exact hc c hm
      · exact (hc' c hm).trans hs.isInfix
  | opt r ih =>
      rcases List.mem_append.mp h with h | h
      · exact ih h
      · obtain rfl := List.mem_singleton.mp h
        exact ⟨List.suffix_refl _, by simp⟩
  | group n r ih =>
      obtain ⟨m', hm', rfl⟩ := List.mem_map.mp h
      obtain ⟨hs, hc⟩ := ih hm'
      refine ⟨hs, fun c hm => ?_⟩
      rcases List.mem_append.mp hm with hm | hm
      · exact hc c hm
      · obtain rfl := List.mem_singleton.mp hm
        exact (List.take_prefix _ _).isInfix

/-- What a match of the whole string captures is a part of the string. -/
theorem fullMatch_part {r : Regex α} {l : List α} {captures : List (ℕ × List α)}
    (h : fullMatch r l = some captures) {n : ℕ} {b : List α} (hb : captures.lookup n = some b) :
    b <:+: l := by
  obtain ⟨m, hm, rfl⟩ := Option.map_eq_some_iff.mp h
  obtain ⟨before, after, hsplit, _⟩ := List.lookup_eq_some_iff.mp hb
  exact (attempts_spec r (List.mem_of_find?_eq_some hm)).2 (n, b) (by rw [hsplit]; simp)

/-- What a continuation makes of the first match of the beginning of a string that it takes. -/
def first (r : Regex α) (l : List α) (k : Match α → Option β) : Option β :=
  (attempts r l).findSome? k

/-- A match of the whole string is one that leaves nothing. -/
lemma fullMatch_eq_first (r : Regex α) (l : List α) :
    fullMatch r l = first r l fun m => if m.2.isEmpty then some m.1 else none := by
  rw [fullMatch, first]
  induction attempts r l with
  | nil => rfl
  | cons m ms ih =>
      rw [List.find?_cons, List.findSome?_cons]
      cases h : m.2.isEmpty with
      | true => simp
      | false => simpa using ih

section Rules

variable {p : α → Bool} {l : List α} {k : Match α → Option β}

lemma first_one (c : α) : first (.one p) (c :: l) k = if p c then k ([], l) else none := by
  rw [first, attempts]
  split
  · rw [List.findSome?_singleton]
  · rfl

lemma first_opt (r : Regex α) : first (.opt r) l k = (first r l k).or (k ([], l)) := by
  rw [first, attempts, List.findSome?_append, List.findSome?_singleton]
  rfl

lemma first_group (n : ℕ) (r : Regex α) :
    first (.group n r) l k
      = first r l fun m => k (m.1 ++ [(n, l.take (l.length - m.2.length))], m.2) := by
  rw [first, attempts, List.findSome?_map]
  rfl

/-- The second part is matched behind every match of the first, in their order. -/
lemma first_seq (r r' : Regex α) :
    first (.seq r r') l k = first r l fun m => first r' m.2 fun m' => k (m.1 ++ m'.1, m'.2) := by
  rw [first, first, attempts]
  induction attempts r l with
  | nil => rfl
  | cons m ms ih =>
      rw [List.flatMap_cons, List.findSome?_append, List.findSome?_map, ih, List.findSome?_cons]
      change Option.or (first r' m.2 fun m' => k (m.1 ++ m'.1, m'.2)) _ = _
      cases first r' m.2 fun m' => k (m.1 ++ m'.1, m'.2) with
      | none => rfl
      | some b => rfl

/-- A repetition whose shorter beginnings are of no use. -/
lemma findSome?_greedy_only {f : List α × List α → Option β}
    (hf : ∀ u c r, p c → f (u, c :: r) = none) :
    (greedy p l).findSome? f = f (l.takeWhile p, l.dropWhile p) := by
  induction l generalizing f with
  | nil => exact List.findSome?_singleton
  | cons c l ih =>
      rw [greedy]
      by_cases hc : p c
      · have hshort := ih (f := f ∘ fun m => (c :: m.1, m.2)) (fun u d r hd => hf (c :: u) d r hd)
        rw [if_pos hc, List.findSome?_append, List.findSome?_map, List.findSome?_singleton,
          hf [] c l hc, Option.or_none, hshort, List.takeWhile_cons_of_pos hc,
          List.dropWhile_cons_of_pos hc]
        rfl
      · rw [if_neg hc, List.findSome?_singleton, List.takeWhile_cons_of_neg hc,
          List.dropWhile_cons_of_neg hc]

/-- A repetition whose longest beginning will do. -/
lemma findSome?_greedy_first {f : List α × List α → Option β} {b : β}
    (hf : f (l.takeWhile p, l.dropWhile p) = some b) : (greedy p l).findSome? f = some b := by
  induction l generalizing f with
  | nil => rwa [greedy, List.findSome?_singleton]
  | cons c l ih =>
      rw [greedy]
      by_cases hc : p c
      · rw [List.takeWhile_cons_of_pos hc, List.dropWhile_cons_of_pos hc] at hf
        have hlong := ih (f := f ∘ fun m => (c :: m.1, m.2)) hf
        rw [if_pos hc, List.findSome?_append, List.findSome?_map, hlong, Option.some_or]
      · rw [List.takeWhile_cons_of_neg hc, List.dropWhile_cons_of_neg hc] at hf
        rw [if_neg hc, List.findSome?_singleton, hf]

lemma first_plus : first (.plus p) l k
    = (greedy p l).findSome? fun m => if m.1 = [] then none else k ([], m.2) := by
  rw [first, attempts, List.findSome?_map]
  induction greedy p l with
  | nil => rfl
  | cons m ms ih =>
      rw [List.findSome?_cons, List.filter_cons, ← ih]
      by_cases hm : m.1 = []
      · simp [hm]
      · rw [if_neg hm, if_pos (by simpa using hm), List.findSome?_cons]
        rfl

lemma first_star : first (.star p) l k = (greedy p l).findSome? fun m => k ([], m.2) := by
  rw [first, attempts, List.findSome?_map]
  rfl

/-- **A repetition does not give back** what the continuation cannot begin with. -/
lemma first_plus_only (hk : ∀ c r, p c → k ([], c :: r) = none) :
    first (.plus p) l k = if l.takeWhile p = [] then none else k ([], l.dropWhile p) := by
  rw [first_plus]
  refine findSome?_greedy_only fun u c r hc => ?_
  dsimp only
  split
  · rfl
  · exact hk c r hc

/-- **A repetition takes all that it can** where the continuation takes what is left. -/
lemma first_plus_greedy (hk : l.takeWhile p ≠ [] → (k ([], l.dropWhile p)).isSome) :
    first (.plus p) l k = if l.takeWhile p = [] then none else k ([], l.dropWhile p) := by
  by_cases hl : l.takeWhile p = []
  · rw [if_pos hl]
    have hg : greedy p l = [([], l)] := by
      cases l with
      | nil => rfl
      | cons c l =>
          have hc : ¬ p c := by
            intro hc
            simp [List.takeWhile_cons_of_pos hc] at hl
          rw [greedy, if_neg hc]
    rw [first_plus, hg, List.findSome?_singleton, if_pos rfl]
  · obtain ⟨b, hb⟩ := Option.isSome_iff_exists.mp (hk hl)
    rw [if_neg hl, hb, first_plus]
    refine findSome?_greedy_first ?_
    rw [if_neg hl, hb]

/-- A continuation for which a repetition of the class `p` does not have to give back: it takes
nothing that begins with the class, or it takes everything. -/
def NoGiveBack (p : α → Bool) (k : Match α → Option β) : Prop :=
  (∀ captures c r, p c → k (captures, c :: r) = none) ∨ ∀ m, (k m).isSome

/-- What is captured on the way does not matter for this. -/
lemma NoGiveBack.captures (h : NoGiveBack p k) (f : Match α → List (ℕ × List α)) :
    NoGiveBack p fun m => k (f m, m.2) :=
  h.imp (fun h _ c r hc => h _ c r hc) fun h _ => h _

/-- **A repetition that does not have to give back** covers a whole run of its class. -/
lemma NoGiveBack.first_plus (h : NoGiveBack p k) :
    first (.plus p) l k = if l.takeWhile p = [] then none else k ([], l.dropWhile p) :=
  h.elim (fun h => first_plus_only fun c r hc => h [] c r hc) fun h =>
    first_plus_greedy fun _ => h _

/-- `.*` goes to the end of the string. -/
lemma first_star_all (hp : ∀ c, p c) (hk : (k ([], [])).isSome) :
    first (.star p) l k = k ([], []) := by
  obtain ⟨b, hb⟩ := Option.isSome_iff_exists.mp hk
  have hall : l.dropWhile p = [] := List.dropWhile_eq_nil_iff.mpr fun c _ => hp c
  rw [first_star, hb]
  refine findSome?_greedy_first ?_
  rw [hall, hb]

end Rules

end Regex

end Library
