import Mathlib.Tactic

/-!
Resources that have one owner each.

* `Resources`: how many were issued, by their numbers, and which of them were released, in order.
* `Resources.Exact`: the owners hold what was issued and not released, each resource once.  So
  **none is released twice, and none is lost.**
* `Exact.issue`, `Exact.releaseSome`, `Exact.swap`: what keeps this.
* `heldBy`: what objects hold that come and go.
* `Building`: an object that is being made, with what it has got so far; `Delivers`: what a
  function that makes it leaves.
-/

namespace Library

open Function

/-- How many resources were issued, and which were released. -/
structure Resources where
  issued : ℕ
  released : List ℕ

namespace Resources

/-- Nothing yet. -/
def init : Resources := ⟨0, []⟩

/-- One more, whose number is the old `issued`. -/
def issue (r : Resources) : Resources := { r with issued := r.issued + 1 }

/-- Some are released. -/
def release (r : Resources) (l : List ℕ) : Resources := { r with released := l ++ r.released }

variable {ι : Type*} {r : Resources} {held : ι → List ℕ}

/-- Every resource has one owner, or was released once. -/
structure Exact (r : Resources) (held : ι → List ℕ) : Prop where
  nodup : ∀ x, (held x).Nodup
  apart : ∀ x y n, n ∈ held x → n ∈ held y → x = y
  once : r.released.Nodup
  not_both : ∀ x, ∀ n ∈ held x, n ∉ r.released
  accounted : ∀ n, n < r.issued ↔ n ∈ r.released ∨ ∃ x, n ∈ held x

namespace Exact

lemma init : Exact .init fun _ : ι => [] where
  nodup _ := List.nodup_nil
  apart _ _ _ h := absurd h List.not_mem_nil
  once := List.nodup_nil
  not_both _ _ h := absurd h List.not_mem_nil
  accounted n := by simp [Resources.init]

/-- What is held was issued. -/
lemma lt_issued (h : Exact r held) {x : ι} {n : ℕ} (hn : n ∈ held x) : n < r.issued :=
  (h.accounted n).mpr (.inr ⟨x, hn⟩)

/-- The next number is new. -/
lemma issued_fresh (h : Exact r held) : r.issued ∉ r.released ∧ ∀ x, r.issued ∉ held x :=
  ⟨fun hn => absurd ((h.accounted _).mpr (.inl hn)) (lt_irrefl _),
    fun _ hn => absurd (h.lt_issued hn) (lt_irrefl _)⟩

/-- What is issued and not held is lost. -/
lemma not_issue (h : Exact r held) : ¬ Exact r.issue held := by
  intro hissue
  rcases (hissue.accounted r.issued).mp (Nat.lt_succ_self _) with hreleased | ⟨x, hx⟩
  · exact h.issued_fresh.1 hreleased
  · exact h.issued_fresh.2 x hx

variable [DecidableEq ι]

lemma mem_update {x y : ι} {l : List ℕ} {n : ℕ} :
    n ∈ update held x l y ↔ (y = x ∧ n ∈ l) ∨ (y ≠ x ∧ n ∈ held y) := by
  by_cases hy : y = x
  · subst hy
    simp
  · simp [hy]

/-- One more for an owner. -/
lemma issue (h : Exact r held) (x : ι) :
    Exact r.issue (update held x (r.issued :: held x)) where
  nodup y := by
    by_cases hy : y = x
    · subst hy
      rw [update_self]
      exact List.nodup_cons.mpr ⟨h.issued_fresh.2 y, h.nodup y⟩
    · rw [update_of_ne hy]
      exact h.nodup y
  apart y z n hy hz := by
    have hother : ∀ y, n ∈ update held x (r.issued :: held x) y →
        (y = x ∧ n = r.issued) ∨ n ∈ held y := by
      intro y hy
      rcases mem_update.mp hy with ⟨rfl, hmem⟩ | ⟨-, hmem⟩
      · exact (List.mem_cons.mp hmem).imp_left fun heq => ⟨rfl, heq⟩
      · exact .inr hmem
    rcases hother y hy with ⟨rfl, rfl⟩ | hmem <;> rcases hother z hz with ⟨rfl, hn⟩ | hmem'
    · rfl
    · exact absurd hmem' (h.issued_fresh.2 z)
    · exact absurd (hn ▸ hmem) (h.issued_fresh.2 y)
    · exact h.apart y z n hmem hmem'
  once := h.once
  not_both y n hn := by
    rcases mem_update.mp hn with ⟨rfl, hmem⟩ | ⟨-, hmem⟩
    · rcases List.mem_cons.mp hmem with rfl | hmem
      · exact h.issued_fresh.1
      · exact h.not_both y n hmem
    · exact h.not_both y n hmem
  accounted n := by
    change n < r.issued + 1 ↔ _
    rw [Nat.lt_succ_iff_lt_or_eq, h.accounted]
    constructor
    · rintro ((hn | ⟨y, hy⟩) | rfl)
      · exact .inl hn
      · refine .inr ⟨y, mem_update.mpr ?_⟩
        by_cases hyx : y = x
        · subst hyx
          exact .inl ⟨rfl, List.mem_cons_of_mem _ hy⟩
        · exact .inr ⟨hyx, hy⟩
      · exact .inr ⟨x, mem_update.mpr (.inl ⟨rfl, List.mem_cons_self⟩)⟩
    · rintro (hn | ⟨y, hy⟩)
      · exact .inl (.inl hn)
      · rcases mem_update.mp hy with ⟨rfl, hmem⟩ | ⟨-, hmem⟩
        · rcases List.mem_cons.mp hmem with rfl | hmem
          · exact .inr rfl
          · exact .inl (.inr ⟨y, hmem⟩)
        · exact .inl (.inr ⟨y, hmem⟩)

/-- An owner releases some of what it holds. -/
lemma releaseSome (h : Exact r held) {x : ι} {m l : List ℕ} (hx : (held x).Perm (m ++ l)) :
    Exact (r.release m) (update held x l) := by
  have hnodup := List.nodup_append.mp (hx.nodup_iff.mp (h.nodup x))
  have hreleased : ∀ n ∈ m, n ∈ held x := fun n hn => hx.mem_iff.mpr (List.mem_append_left _ hn)
  have hkept : ∀ y n, n ∈ update held x l y → n ∈ held y := by
    intro y n hy
    rcases mem_update.mp hy with ⟨rfl, hmem⟩ | ⟨-, hmem⟩
    · exact hx.mem_iff.mpr (List.mem_append_right _ hmem)
    · exact hmem
  constructor
  · intro y
    by_cases hy : y = x
    · subst hy
      rw [update_self]
      exact hnodup.2.1
    · rw [update_of_ne hy]
      exact h.nodup y
  · exact fun y z n hy hz => h.apart y z n (hkept y n hy) (hkept z n hz)
  · exact List.nodup_append.mpr ⟨hnodup.1, h.once, fun n hn k hk heq =>
      h.not_both x n (hreleased n hn) (heq ▸ hk)⟩
  · intro y n hn hmem
    rcases List.mem_append.mp hmem with hm | hmem
    · rcases mem_update.mp hn with ⟨-, hl⟩ | ⟨hy, hother⟩
      · exact hnodup.2.2 n hm n hl rfl
      · exact hy (h.apart y x n hother (hreleased n hm))
    · exact h.not_both y n (hkept y n hn) hmem
  · intro n
    change n < r.issued ↔ n ∈ m ++ r.released ∨ _
    rw [h.accounted, List.mem_append]
    constructor
    · rintro (hn | ⟨y, hy⟩)
      · exact .inl (.inr hn)
      · by_cases hyx : y = x
        · subst hyx
          rcases List.mem_append.mp (hx.mem_iff.mp hy) with hm | hl
          · exact .inl (.inl hm)
          · exact .inr ⟨y, mem_update.mpr (.inl ⟨rfl, hl⟩)⟩
        · exact .inr ⟨y, mem_update.mpr (.inr ⟨hyx, hy⟩)⟩
    · rintro ((hn | hn) | ⟨y, hy⟩)
      · exact .inr ⟨x, hreleased n hn⟩
      · exact .inl hn
      · exact .inr ⟨y, hkept y n hy⟩

/-- An owner releases all that it holds. -/
lemma release (h : Exact r held) (x : ι) : Exact (r.release (held x)) (update held x []) :=
  h.releaseSome (by rw [List.append_nil])

/-- Two owners exchange what they hold. -/
lemma swap (h : Exact r held) (x y : ι) : Exact r (held ∘ Equiv.swap x y) where
  nodup z := h.nodup _
  apart z w n hz hw := (Equiv.swap x y).injective (h.apart _ _ n hz hw)
  once := h.once
  not_both z := h.not_both _
  accounted n := by
    rw [h.accounted]
    refine or_congr_right ⟨fun ⟨z, hz⟩ => ⟨Equiv.swap x y z, ?_⟩, fun ⟨z, hz⟩ => ⟨_, hz⟩⟩
    rwa [comp_apply, Equiv.swap_apply_self]

end Exact

end Resources

/-! ### Objects -/

section Objects

variable {ι O ε : Type*} {f : O → List ℕ} {objects : ι → Option O} {x : ι}

/-- What an object holds, if it is there. -/
def heldBy (f : O → List ℕ) (objects : ι → Option O) (x : ι) : List ℕ :=
  ((objects x).map f).getD []

lemma heldBy_none (hx : objects x = none) : heldBy f objects x = [] := by
  rw [heldBy, hx]
  rfl

lemma heldBy_some {object : O} (hx : objects x = some object) :
    heldBy f objects x = f object := by
  rw [heldBy, hx]
  rfl

variable [DecidableEq ι] {held : ι → List ℕ} {r : Resources} {k l : List ℕ}

lemma heldBy_update (f : O → List ℕ) (objects : ι → Option O) (x : ι) (object : Option O) :
    heldBy f (update objects x object)
      = update (heldBy f objects) x ((object.map f).getD []) := by
  funext y
  by_cases hy : y = x
  · subst hy
    rw [heldBy, update_self, update_self]
  · rw [heldBy, update_of_ne hy, update_of_ne hy]
    rfl

/-- What a function has got so far is held by the object that it makes. -/
def Building (held : ι → List ℕ) (x : ι) (r : Resources) (l : List ℕ) : Prop :=
  r.Exact (update held x l)

lemma Building.issue (h : Building held x r l) : Building held x r.issue (r.issued :: l) := by
  have hissue := Resources.Exact.issue h x
  rwa [update_self, update_idem] at hissue

lemma Building.releaseSome {m : List ℕ} (h : Building held x r l) (hl : l.Perm (m ++ k)) :
    Building held x (r.release m) k := by
  have hrelease := Resources.Exact.releaseSome h (x := x) (m := m) (l := k)
    (by rwa [update_self])
  rwa [update_idem] at hrelease

lemma Building.release (h : Building held x r l) : Building held x (r.release l) [] :=
  h.releaseSome (by rw [List.append_nil])

/-- Where there is no object a function that makes one has got nothing yet. -/
lemma building_iff (hx : objects x = none) :
    Building (heldBy f objects) x r [] ↔ r.Exact (heldBy f objects) := by
  rw [Building, update_eq_self_iff.mpr (heldBy_none hx).symm]

/-- The object is there. -/
lemma building_update {object : O} : Building (heldBy f objects) x r (f object) ↔
    r.Exact (heldBy f (update objects x (some object))) := by
  rw [heldBy_update]
  rfl

/-- An object goes, or stays with nothing, and all that it holds is released. -/
lemma exact_of_released {object : O} {left : Option O} (h : r.Exact (heldBy f objects))
    (hx : objects x = some object) (hleft : (left.map f).getD [] = []) :
    (r.release (f object)).Exact (heldBy f (update objects x left)) := by
  have hrelease := h.release x
  rw [heldBy_some hx] at hrelease
  rw [heldBy_update, hleft]
  exact hrelease

/-- A function that makes an object leaves nothing but the object that it returns. -/
def Delivers (f : O → List ℕ) (held : ι → List ℕ) (x : ι) : Except ε O × Resources → Prop
  | (.error _, r) => Building held x r []
  | (.ok object, r) => Building held x r (f object)

end Objects

end Library
