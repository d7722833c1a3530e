import Arachnida.Acari.ParsingHelpers

/-!
What `findHeaderEnd` computes.

* `findHeaderEnd_suffix`: the answer is a position of the buffer.
* `findHeaderEnd_line`: a header on one line, followed by newlines and a character that is not
  white space, ends at the first of these newlines; `findHeaderEnd_last`: so does a header
  followed by the newlines of the blank line and the end of the buffer.
* `findHeaderEnd_cases`: whatever the buffer, the answer is the start of the buffer, or the header
  found ends in front of a run of newlines behind which a character that is not white space
  follows, or in front of newlines that reach the end of the buffer and close the headers.  The
  answer then also stands in any longer buffer, in the last case as long as the next line is not
  a continuation line (`ContinuesLine`).
-/

namespace Arachnida.Acari

open Library

/-- The newlines of a run are enough to end the headers. -/
def endsHeaders (run : Bytes) : Bool := run.count 13 ≥ 2 || run.count 10 ≥ 2

lemma moreHeaders_append (n v : Bytes) : moreHeaders (n ++ v) v = !endsHeaders n := by
  simp [moreHeaders, endsHeaders]

lemma moreHeaders_nil (n : Bytes) : moreHeaders n [] = !endsHeaders n := by
  simp [moreHeaders, endsHeaders]

lemma endsHeaders_append (m n : Bytes) (h : endsHeaders m = true ∨ endsHeaders n = true) :
    endsHeaders (m ++ n) = true := by
  simp only [endsHeaders, Bool.or_eq_true, decide_eq_true_eq, List.count_append] at h ⊢
  omega

@[simp] lemma endsHeaders_nil : endsHeaders [] = false := rfl

/-- A part of a run has no more newlines than the run. -/
lemma endsHeaders_sublist {m n : Bytes} (h : m.Sublist n) (hn : endsHeaders n = false) :
    endsHeaders m = false := by
  have h13 := h.count_le 13
  have h10 := h.count_le 10
  simp only [endsHeaders, Bool.or_eq_false_iff, decide_eq_false_iff_not] at hn ⊢
  omega

/-- White space that is not a newline, which at the start of a line continues the header. -/
def isContinuation (c : Byte) : Bool := c == 9 || c == 32

/-- The first line that is not empty begins with white space. -/
def ContinuesLine (r : Bytes) : Prop := ¬ Stops isContinuation (r.dropWhile isNewLine)

instance (r : Bytes) : Decidable (ContinuesLine r) := inferInstanceAs (Decidable (¬ _))

lemma isIgnorableWhiteSpace_iff (c : Byte) :
    isIgnorableWhiteSpace c = true ↔ isNewLine c = true ∨ isContinuation c = true := by
  simp [isIgnorableWhiteSpace, isNewLine, isContinuation]
  tauto

lemma isIgnorableWhiteSpace_of_isNewLine {c : Byte} (h : isNewLine c = true) :
    isIgnorableWhiteSpace c = true := (isIgnorableWhiteSpace_iff c).mpr (.inl h)

lemma not_isNewLine_of_not_isIgnorableWhiteSpace {c : Byte} (h : isIgnorableWhiteSpace c = false) :
    isNewLine c = false := by
  cases hc : isNewLine c with
  | false => rfl
  | true => rw [isIgnorableWhiteSpace_of_isNewLine hc] at h; exact h

lemma stops_isNewLine {l : Bytes} (h : Stops isIgnorableWhiteSpace l) : Stops isNewLine l := by
  cases l with
  | nil => trivial
  | cons c l => exact not_isNewLine_of_not_isIgnorableWhiteSpace h

/-! ### Backing up -/

lemma backupFrom_eq_drop (begin : Iterator) (d : ℕ) : ∃ k, backupFrom begin d = begin.drop k := by
  induction d with
  | zero => exact ⟨0, rfl⟩
  | succ d ih =>
      rw [backupFrom]
      split
      · exact ih
      · exact ⟨d + 1, rfl⟩

lemma backupThroughNewlines_suffix (begin where_ : Iterator) :
    backupThroughNewlines begin where_ <:+ begin := by
  obtain ⟨k, hk⟩ := backupFrom_eq_drop begin (begin.length - where_.length)
  rw [backupThroughNewlines, hk]
  exact List.drop_suffix _ _

/-- Backing up stops behind the last character that is not a newline. -/
lemma backupThroughNewlines_append {h n : Bytes} (hne : h ≠ []) (hh : Stops isNewLine h.reverse)
    (hn : ∀ c ∈ n, isNewLine c = true) (v : Bytes) :
    backupThroughNewlines (h ++ (n ++ v)) v = n ++ v := by
  have key : ∀ k ≤ n.length, backupFrom (h ++ (n ++ v)) (h.length + k) = n ++ v := by
    intro k
    induction k with
    | zero =>
        intro _
        obtain ⟨h', c, rfl⟩ := List.eq_nil_or_concat h |>.resolve_left hne
        have hc : isNewLine c = false := by simpa using hh
        have hlen : (h'.concat c).length + 0 = h'.length + 1 := by simp
        rw [hlen, backupFrom, if_neg]
        · simp
        · simp [hc]
    | succ k ih =>
        intro hk
        have hpos : 0 < h.length := List.length_pos_of_ne_nil hne
        have hkn : k < n.length := by omega
        have hget : (h ++ (n ++ v)).getD (h.length + k) 0 = n[k] := by
          rw [List.getD_eq_getElem?_getD, List.getElem?_append_right (by omega),
            Nat.add_sub_cancel_left, List.getElem?_append_left (by omega),
            List.getElem?_eq_getElem (by omega), Option.getD_some]
        rw [← Nat.add_assoc, backupFrom, if_pos, ih (by omega)]
        refine ⟨by omega, ?_⟩
        rw [hget]
        exact hn _ (List.getElem_mem _)
  have hd : (h ++ (n ++ v)).length - v.length = h.length + n.length := by
    simp only [List.length_append]; omega
  rw [backupThroughNewlines, hd, key _ le_rfl]

/-! ### One call -/

/-- Every buffer is text without newlines, a run of newlines, and a place where the run stops;
the run is empty only at the end of the buffer. -/
lemma exists_line (w : Bytes) : ∃ t n v, w = t ++ (n ++ v) ∧ (∀ c ∈ t, isNewLine c = false) ∧
    (∀ c ∈ n, isNewLine c = true) ∧ Stops isNewLine v ∧ (n = [] → v = []) := by
  obtain ⟨t, u, rfl, ht, hu⟩ := exists_run (fun c => !isNewLine c) w
  obtain ⟨n, v, rfl, hn, hv⟩ := exists_run isNewLine u
  refine ⟨t, n, v, rfl, fun c hc => by simpa using ht c hc, hn, hv, ?_⟩
  rintro rfl
  exact eq_nil_of_stops_not hv hu

/-- Text on one line, scanned. -/
lemma advanceUntilEndOfLine_append {t u : Bytes} (ht : ∀ c ∈ t, isNewLine c = false)
    (hu : ∀ c ∈ u.head?, isNewLine c = true) : advanceUntilEndOfLine (t ++ u) = u := by
  refine dropWhile_append_stops (fun c hc => by simp [ht c hc]) ?_
  cases u with
  | nil => trivial
  | cons c u => simpa using hu c

lemma line_scanned {t n v : Bytes} (ht : ∀ c ∈ t, isNewLine c = false)
    (hn : ∀ c ∈ n, isNewLine c = true) (hv : Stops isNewLine v) (hnv : n = [] → v = []) :
    (advanceUntilEndOfLine (t ++ (n ++ v))).dropWhile isNewLine = v := by
  rw [advanceUntilEndOfLine_append ht, dropWhile_append_stops hn hv]
  intro c hc
  cases n with
  | nil => simp [hnv rfl] at hc
  | cons c' n =>
      simp only [List.cons_append, List.head?_cons, Option.mem_some_iff] at hc
      subst hc
      simp_all

section Pass

variable (from_where : Bytes) {t n : Bytes} (ht : ∀ c ∈ t, isNewLine c = false)
  (hn : ∀ c ∈ n, isNewLine c = true)
include ht hn

/-- The search ends in front of a character that is not white space. -/
lemma findHeaderEndPass_text {x : Byte} {v : Bytes} (hne : n ≠ [])
    (hx : isIgnorableWhiteSpace x = false) : findHeaderEndPass from_where (t ++ (n ++ x :: v))
      = .inr (backupThroughNewlines from_where (x :: v)) := by
  have hs := line_scanned (v := x :: v) ht hn
    (not_isNewLine_of_not_isIgnorableWhiteSpace hx) (fun h => absurd h hne)
  simp only [findHeaderEndPass, hs, hx, Bool.not_false, if_true]

/-- The search goes on behind the newlines if the next line begins with white space. -/
lemma findHeaderEndPass_fold {x : Byte} {v : Bytes} (hne : n ≠ [])
    (hx : isContinuation x = true) (hx' : isNewLine x = false) :
    findHeaderEndPass from_where (t ++ (n ++ x :: v)) = .inl (x :: v) := by
  have hs := line_scanned (v := x :: v) ht hn hx' (fun h => absurd h hne)
  have hw : isIgnorableWhiteSpace x = true := (isIgnorableWhiteSpace_iff x).mpr (.inr hx)
  simp only [findHeaderEndPass, hs, hw, Bool.not_true, Bool.false_eq_true, if_false]

/-- At the end of the buffer the answer depends on the number of newlines in front of it. -/
lemma findHeaderEndPass_end : findHeaderEndPass from_where (t ++ n)
      = .inr (if endsHeaders (backupThroughNewlines from_where []) then
          backupThroughNewlines from_where [] else from_where) := by
  have hs := line_scanned (v := []) ht hn trivial (fun _ => rfl)
  rw [List.append_nil] at hs
  simp only [findHeaderEndPass, hs, moreHeaders_nil, Bool.not_not]
  split <;> rfl

end Pass

/-! ### The whole search -/

lemma findHeaderEnd_suffix (from_where : Iterator) : findHeaderEnd from_where <:+ from_where := by
  refine (findHeaderEndLoop from_where).run_invariant (I := fun _ => True)
    (Q := fun r => r <:+ from_where) (fun _ _ _ _ => trivial) (fun w r _ hr => ?_) trivial
  change findHeaderEndPass from_where w = .inr r at hr
  simp only [findHeaderEndPass] at hr
  split at hr
  · split at hr
    · obtain rfl := Sum.inr.inj hr
      exact backupThroughNewlines_suffix _ _
    · cases hr
  · split at hr <;> obtain rfl := Sum.inr.inj hr
    · exact backupThroughNewlines_suffix _ _
    · exact List.suffix_rfl

@[simp] lemma findHeaderEnd_nil : findHeaderEnd [] = [] :=
  List.suffix_nil.mp (findHeaderEnd_suffix [])

lemma stops_reverse_of_no_newLine {h : Bytes} (hh : ∀ c ∈ h, isNewLine c = false) :
    Stops isNewLine h.reverse := by
  cases hr : h.reverse with
  | nil => trivial
  | cons c l => exact hh c (List.mem_reverse.mp (hr ▸ List.mem_cons_self))

/-- A line whose text is not empty, whatever is in front of it. -/
lemma exists_text {w : Bytes} (hw : w ≠ []) (hs : Stops isNewLine w) :
    ∃ t n v, w = t ++ (n ++ v) ∧ t ≠ [] ∧ (∀ c ∈ t, isNewLine c = false) ∧
      (∀ c ∈ n, isNewLine c = true) ∧ Stops isNewLine v ∧ (n = [] → v = []) ∧
      ∀ p : Bytes, Stops isNewLine (p ++ t).reverse := by
  obtain ⟨t, n, v, rfl, ht, hn, hv, hnv⟩ := exists_line w
  have htne : t ≠ [] := by
    rintro rfl
    cases n with
    | nil => simp [hnv rfl] at hw
    | cons c n => simp [hn c] at hs
  refine ⟨t, n, v, rfl, htne, ht, hn, hv, hnv, fun p => ?_⟩
  rw [List.reverse_append]
  exact (stops_reverse_of_no_newLine ht).append (by simpa using htne) _

/-- A header on one line with something other than white space behind its newlines. -/
lemma findHeaderEnd_line {h n v : Bytes} {x : Byte} (hne : h ≠ [])
    (hh : ∀ c ∈ h, isNewLine c = false) (hn : ∀ c ∈ n, isNewLine c = true) (hnn : n ≠ [])
    (hx : isIgnorableWhiteSpace x = false) :
    findHeaderEnd (h ++ (n ++ x :: v)) = n ++ x :: v := by
  rw [findHeaderEnd, MeasuredLoop.run_of_inr _ (findHeaderEndPass_text _ hh hn hnn hx)]
  exact backupThroughNewlines_append hne (stops_reverse_of_no_newLine hh) hn _

/-- A header on one line with the end of the buffer behind its newlines. -/
lemma findHeaderEnd_last {h n : Bytes} (hne : h ≠ []) (hh : ∀ c ∈ h, isNewLine c = false)
    (hn : ∀ c ∈ n, isNewLine c = true) :
    findHeaderEnd (h ++ n) = if endsHeaders n then n else h ++ n := by
  have hb := backupThroughNewlines_append hne (stops_reverse_of_no_newLine hh) hn []
  rw [List.append_nil] at hb
  rw [findHeaderEnd, MeasuredLoop.run_of_inr _ (findHeaderEndPass_end _ hh hn), hb]

/-- What is known about an answer of the search started at `w` in the buffer `b`, in longer
buffers too. -/
inductive HeaderFound (b w : Bytes) : Bytes → Prop
  | unknown : HeaderFound b w b
  | inside (h n v : Bytes) (x : Byte) (hb : b = h ++ (n ++ x :: v)) (hne : h ≠ [])
      (hn : ∀ c ∈ n, isNewLine c = true) (hnn : n ≠ []) (hx : isIgnorableWhiteSpace x = false)
      (stable : ∀ r, (findHeaderEndLoop (b ++ r)).run (w ++ r) = n ++ x :: v ++ r) :
      HeaderFound b w (n ++ x :: v)
  | atEnd (h n : Bytes) (hb : b = h ++ n) (hne : h ≠ [])
      (hn : ∀ c ∈ n, isNewLine c = true) (hends : endsHeaders n = true)
      (stable : ∀ r, ¬ ContinuesLine r →
        (findHeaderEndLoop (b ++ r)).run (w ++ r) = n ++ r) :
      HeaderFound b w n

/-- The newlines in front of the end of the buffer, and what they are once more arrives. -/
lemma run_atEnd_append {h t n : Bytes} (hne : h ≠ []) (hlast : Stops isNewLine h.reverse)
    (ht : ∀ c ∈ t, isNewLine c = false) (hn : ∀ c ∈ n, isNewLine c = true)
    (hends : endsHeaders n = true) {r : Bytes}
    (hr : ¬ ContinuesLine r) :
    (findHeaderEndLoop (h ++ n ++ r)).run (t ++ n ++ r) = n ++ r := by
  have hnn : n ≠ [] := by rintro rfl; simp at hends
  obtain ⟨m, v, rfl, hm, hv⟩ := exists_run isNewLine r
  have hnm : ∀ c ∈ n ++ m, isNewLine c = true := by
    intro c hc
    exact (List.mem_append.mp hc).elim (hn c) (hm c)
  have hassoc : ∀ a : Bytes, a ++ n ++ (m ++ v) = a ++ ((n ++ m) ++ v) := by simp
  rw [hassoc, hassoc]
  have hb := backupThroughNewlines_append hne hlast hnm v
  cases v with
  | nil =>
      have hp : findHeaderEndPass (h ++ ((n ++ m) ++ [])) (t ++ (n ++ m)) = _ :=
        findHeaderEndPass_end _ ht hnm
      rw [List.append_nil (n ++ m)] at hb hp ⊢
      rw [MeasuredLoop.run_of_inr (findHeaderEndLoop _) hp, hb,
        if_pos (endsHeaders_append _ _ (.inl hends)), List.append_nil]
  | cons x v =>
      have hx : isIgnorableWhiteSpace x = false := by
        have hcx : Stops isContinuation (x :: v) := by
          rw [ContinuesLine, not_not, dropWhile_append_stops hm hv] at hr
          exact hr
        cases hw : isIgnorableWhiteSpace x with
        | false => rfl
        | true =>
            rcases (isIgnorableWhiteSpace_iff x).mp hw with h1 | h1
            · exact (Bool.eq_false_iff.mp hv h1).elim
            · exact (Bool.eq_false_iff.mp hcx h1).elim
      rw [MeasuredLoop.run_of_inr (findHeaderEndLoop _)
        (findHeaderEndPass_text _ ht hnm (by simp [hnn]) hx), hb]
      simp

/-- The search started at any later position that is not a newline. -/
lemma run_headerFound (b w : Bytes) : ∀ p, b = p ++ w → w ≠ [] → Stops isNewLine w →
    HeaderFound b w ((findHeaderEndLoop b).run w) := by
  refine (findHeaderEndLoop b).run_rec
    (P := fun w r => ∀ p, b = p ++ w → w ≠ [] → Stops isNewLine w → HeaderFound b w r)
    ?last ?next w
  case last =>
    intro w r hr p hb hw hs
    obtain ⟨t, n, v, rfl, htne, ht, hn, hv, hnv, hstops⟩ := exists_text hw hs
    have hlast := hstops p
    have hne : p ++ t ≠ [] := by simp [htne]
    have hb' : b = (p ++ t) ++ (n ++ v) := by rw [hb]; simp
    cases v with
    | nil =>
        simp only [List.append_nil] at hb' hr ⊢
        have hbk := backupThroughNewlines_append hne hlast hn []
        rw [List.append_nil, ← hb'] at hbk
        have hp := (findHeaderEndPass_end b ht hn).symm.trans hr
        rw [hbk] at hp
        by_cases hends : endsHeaders n = true
        · obtain rfl : n = r := by simpa [hends] using hp
          refine .atEnd (p ++ t) n hb' hne hn hends fun r hr => ?_
          rw [hb']
          exact run_atEnd_append hne hlast ht hn hends hr
        · obtain rfl : b = r := by simpa [hends] using hp
          exact .unknown
    | cons x v =>
        have hnn : n ≠ [] := fun h => by simpa using hnv h
        have hx : isIgnorableWhiteSpace x = false := by
          cases hw : isIgnorableWhiteSpace x with
          | false => rfl
          | true =>
              have hc := ((isIgnorableWhiteSpace_iff x).mp hw).resolve_left
                (Bool.eq_false_iff.mp hv)
              rw [show (findHeaderEndLoop b).pass _ = _ from
                findHeaderEndPass_fold b ht hn hnn hc hv] at hr
              cases hr
        have hp := (findHeaderEndPass_text b ht hn hnn hx).symm.trans hr
        rw [hb', backupThroughNewlines_append hne hlast hn] at hp
        obtain rfl := Sum.inr.inj hp
        refine .inside (p ++ t) n v x hb' hne hn hnn hx fun r => ?_
        have hpr := findHeaderEndPass_text (b ++ r) (v := v ++ r) ht hn hnn hx
        have hbr := backupThroughNewlines_append hne hlast hn (x :: v ++ r)
        rw [show t ++ (n ++ x :: v) ++ r = t ++ (n ++ x :: (v ++ r)) by simp,
          MeasuredLoop.run_of_inr (findHeaderEndLoop _) hpr, hb']
        simpa using hbr
  case next =>
    intro w w' hw' ih p hb hw hs
    obtain ⟨t, n, v, rfl, ht, hn, hv, hnv⟩ := exists_line w
    cases v with
    | nil =>
        rw [List.append_nil, show (findHeaderEndLoop b).pass (t ++ n) = _ from
          findHeaderEndPass_end b ht hn] at hw'
        cases hw'
    | cons x v =>
        have hnn : n ≠ [] := fun h => by simpa using hnv h
        have hc : isContinuation x = true := by
          cases hx : isIgnorableWhiteSpace x with
          | false =>
              rw [show (findHeaderEndLoop b).pass _ = _ from
                findHeaderEndPass_text b ht hn hnn hx] at hw'
              cases hw'
          | true =>
              exact ((isIgnorableWhiteSpace_iff x).mp hx).resolve_left (Bool.eq_false_iff.mp hv)
        have hfold := fun (c u : Bytes) => findHeaderEndPass_fold c (v := u)
          ht hn hnn hc hv
        obtain rfl : x :: v = w' := Sum.inl.inj ((hfold b v).symm.trans hw')
        have hlong : ∀ r, (findHeaderEndLoop (b ++ r)).run (t ++ (n ++ x :: v) ++ r)
            = (findHeaderEndLoop (b ++ r)).run (x :: v ++ r) := by
          intro r
          rw [show t ++ (n ++ x :: v) ++ r = t ++ (n ++ x :: (v ++ r)) by simp]
          exact MeasuredLoop.run_of_inl _ (hfold (b ++ r) (v ++ r))
        have hfound := ih (p ++ t ++ n) (by rw [hb]; simp) (by simp) hv
        generalize (findHeaderEndLoop b).run (x :: v) = res at hfound ⊢
        cases hfound with
        | unknown => exact .unknown
        | inside h n v x hb hne hn hnn hx stable =>
            exact .inside h n v x hb hne hn hnn hx fun r => (hlong r).trans (stable r)
        | atEnd h _ hb hne hn hends stable =>
            exact .atEnd h _ hb hne hn hends fun r hr => (hlong r).trans (stable r hr)

/-- **The end of a header**, in the buffer and in every longer one. -/
theorem findHeaderEnd_cases {b : Bytes} (hb : b ≠ []) (hs : Stops isNewLine b) :
    HeaderFound b b (findHeaderEnd b) :=
  run_headerFound b b [] rfl hb hs

/-- There is something behind the end of a header. -/
lemma findHeaderEnd_ne_nil {b : Bytes} (hb : b ≠ []) (hs : Stops isNewLine b) :
    findHeaderEnd b ≠ [] := by
  have hfound := findHeaderEnd_cases hb hs
  generalize findHeaderEnd b = e at hfound ⊢
  cases hfound with
  | unknown => exact hb
  | inside => simp
  | atEnd _ _ _ _ _ hends =>
      rintro rfl
      cases hends

end Arachnida.Acari
