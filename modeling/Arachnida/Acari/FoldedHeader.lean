import Arachnida.Acari.HeaderEnd

/-!
Headers that go on over several lines.

* `FoldsOnly`: the newlines in a header are those in front of its continuation lines; `Folded` is
  the same line by line.
* `run_folded`: the search for the end goes from one line to the next, up to the last.
* `run_folded_cut`: in a buffer that is cut anywhere in the header, or behind its last newline, the
  end is not known yet.
* `foldedHeader_end`: both, and the name and the value that such a header is split into.
-/

namespace Arachnida.Acari

open Library

/-- Every run of newlines in a header is a carriage return and a line feed, in front of a space or
a tab. -/
def FoldsOnly (h : Bytes) : Prop :=
  ∀ a n b, h = a ++ (n ++ b) → n ≠ [] → (∀ c ∈ n, c = 13 ∨ c = 10) → Stops isNewLine a.reverse →
    Stops isNewLine b → n = [13, 10] ∧ ∃ c r, b = c :: r ∧ (c = 32 ∨ c = 9)

/-- A line, and continuation lines behind it. -/
inductive Folded : Bytes → Prop
  | line (t : Bytes) (ht : ∀ c ∈ t, isNewLine c = false) : Folded t
  | fold (t : Bytes) (c : Byte) (g : Bytes) (ht : ∀ c ∈ t, isNewLine c = false)
      (hc : c = 32 ∨ c = 9) (hg : Folded (c :: g)) : Folded (t ++ 13 :: 10 :: c :: g)

/-- Behind a continuation character the newlines are still those of the header. -/
lemma FoldsOnly.of_append {l : Bytes} {c : Byte} {g : Bytes} (hh : FoldsOnly (l ++ c :: g))
    (hc : isNewLine c = false) : FoldsOnly (c :: g) := by
  intro a n b hsplit hne hn ha hb
  refine hh (l ++ a) n b (by rw [hsplit, List.append_assoc]) hne hn ?_ hb
  have hane : a ≠ [] := by
    rintro rfl
    cases n with
    | nil => exact hne rfl
    | cons d n =>
        obtain ⟨rfl, -⟩ := List.cons.inj hsplit
        rcases hn c (by simp) with rfl | rfl <;> cases hc
  rw [List.reverse_append]
  exact ha.append (by simpa using hane) _

/-- A header without other newlines, line by line. -/
lemma FoldsOnly.folded {h : Bytes} (hh : FoldsOnly h) : Folded h := by
  induction hk : h.length using Nat.strong_induction_on generalizing h with
  | _ k ih =>
      obtain ⟨t, n, v, rfl, ht, hn, hv, hnv⟩ := exists_line h
      by_cases hnn : n = []
      · obtain rfl := hnv hnn
        rw [hnn, List.append_nil, List.append_nil]
        exact .line t ht
      · have hn' : ∀ c ∈ n, c = 13 ∨ c = 10 :=
          fun c hc => by simpa [isNewLine, or_comm] using hn c hc
        obtain ⟨rfl, c, g, rfl, hc⟩ := hh t n v rfl hnn hn' (stops_reverse_of_no_newLine ht) hv
        have hrest : FoldsOnly (c :: g) := by
          refine FoldsOnly.of_append (l := t ++ [13, 10]) ?_ hv
          rwa [List.append_assoc]
        refine .fold t c g ht hc (ih _ ?_ hrest rfl)
        rw [← hk]
        simp only [List.length_append, List.length_cons]
        omega

/-- Line by line there are no other newlines. -/
lemma Folded.foldsOnly {h : Bytes} (hh : Folded h) : FoldsOnly h := by
  induction hh with
  | line t ht =>
      rintro a n b rfl hne hn - -
      obtain ⟨c, n, rfl⟩ := List.exists_cons_of_ne_nil hne
      have hc := ht c (by simp)
      rcases hn c (by simp) with rfl | rfl <;> cases hc
  | fold t c g ht hc _ ih =>
      intro a n b hsplit hne hn ha hb
      have hcont : isNewLine c = false := by rcases hc with rfl | rfl <;> decide
      have hnew : ∀ c ∈ n, isNewLine c = true := fun d hd => by
        simpa [isNewLine, or_comm] using hn d hd
      have hhere : n ++ b = [13, 10] ++ c :: g →
          n = [13, 10] ∧ ∃ c r, b = c :: r ∧ (c = 32 ∨ c = 9) := by
        intro heq
        have hstop : Stops isNewLine (c :: g) := hcont
        obtain ⟨hrun, hrest⟩ := run_unique heq hnew hb (by decide) hstop
        exact ⟨hrun, c, g, hrest, hc⟩
      rcases List.append_eq_append_iff.mp hsplit with ⟨a', rfl, heq⟩ | ⟨t', rfl, heq⟩
      · rcases a' with _ | ⟨d, _ | ⟨e, _ | ⟨f, a'⟩⟩⟩
        · exact hhere heq.symm
        · obtain ⟨rfl, -⟩ := List.cons.inj heq
          rw [List.reverse_append] at ha
          cases ha
        · obtain ⟨rfl, heq'⟩ := List.cons.inj heq
          obtain ⟨rfl, -⟩ := List.cons.inj heq'
          rw [List.reverse_append] at ha
          cases ha
        · -- the run is behind the first line
          obtain ⟨rfl, heq'⟩ := List.cons.inj heq
          obtain ⟨rfl, hrest⟩ := List.cons.inj heq'
          refine ih (f :: a') n b hrest hne hn ?_ hb
          have hsplit' : (t ++ 13 :: 10 :: f :: a').reverse
              = (f :: a').reverse ++ (t ++ [13, 10]).reverse := by
            simp
          rw [hsplit'] at ha
          exact ha.of_append
      · cases t' with
        | nil => exact hhere heq
        | cons d t' =>
            -- a newline in the line
            obtain ⟨e, n, rfl⟩ := List.exists_cons_of_ne_nil hne
            obtain ⟨rfl, -⟩ := List.cons.inj heq
            have he := ht e (by simp)
            rw [hnew e (by simp)] at he
            cases he

/-! ### The search -/

/-- The search goes on in the last line. -/
lemma run_folded {g : Bytes} (hg : Folded g) (from_where : Bytes) {x : Byte}
    (hx : isIgnorableWhiteSpace x = false) (r : Bytes) :
    (findHeaderEndLoop from_where).run (g ++ 13 :: 10 :: x :: r)
      = backupThroughNewlines from_where (x :: r) := by
  have hn : ∀ c ∈ ([13, 10] : Bytes), isNewLine c = true := by decide
  induction hg with
  | line t ht =>
      exact MeasuredLoop.run_of_inr (findHeaderEndLoop _)
        (findHeaderEndPass_text from_where ht hn (by decide) hx)
  | fold t c g ht hc _ ih =>
      have hcont : isContinuation c = true ∧ isNewLine c = false := by
        rcases hc with rfl | rfl <;> decide
      rw [List.append_assoc, ← ih]
      exact MeasuredLoop.run_of_inl (findHeaderEndLoop _)
        (findHeaderEndPass_fold from_where ht hn (by decide) hcont.1 hcont.2)

/-- A prefix of two parts ends in the first, or goes into the second. -/
lemma prefix_cases {w a b : Bytes} (h : w <+: a ++ b) : w <+: a ∨ ∃ c, w = a ++ c ∧ c <+: b := by
  rcases List.prefix_or_prefix_of_prefix h (List.prefix_append a b) with hw | ⟨c, rfl⟩
  · exact .inl hw
  · exact .inr ⟨c, rfl, (List.prefix_append_right_inj a).mp h⟩

/-- A line that is cut, or of which the end is the end of the buffer, is not known to end. -/
lemma run_line_cut (q : Bytes) {t n : Bytes} (hne : t ≠ []) (ht : ∀ c ∈ t, isNewLine c = false)
    (hn : n <+: [13, 10]) : (findHeaderEndLoop (q ++ (t ++ n))).run (t ++ n) = q ++ (t ++ n) := by
  have hnew : ∀ c ∈ n, isNewLine c = true := fun c hc =>
    (by decide : ∀ c ∈ ([13, 10] : Bytes), isNewLine c = true) c (hn.subset hc)
  have hlast : Stops isNewLine (q ++ t).reverse := by
    rw [List.reverse_append]
    exact (stops_reverse_of_no_newLine ht).append (by simpa using hne) _
  have hback := backupThroughNewlines_append (h := q ++ t) (by simp [hne]) hlast hnew []
  rw [List.append_nil, List.append_assoc] at hback
  have hends : endsHeaders n = false := endsHeaders_sublist hn.sublist (by decide)
  rw [MeasuredLoop.run_of_inr (findHeaderEndLoop _) (findHeaderEndPass_end _ ht hnew), hback,
    hends]
  rfl

/-- **A header that is cut is not known to end**, wherever the cut is. -/
lemma run_folded_cut {g : Bytes} (hg : Folded g) (hs : Stops isNewLine g) (hgne : g ≠ [])
    (q : Bytes) {w : Bytes} (hne : w ≠ []) (hw : w <+: g ++ [13, 10]) :
    (findHeaderEndLoop (q ++ w)).run w = q ++ w := by
  induction hg generalizing q w with
  | line t ht =>
      rcases prefix_cases hw with hw | ⟨n, rfl, hn⟩
      · have hcut := run_line_cut q (n := []) hne (fun c hc => ht c (hw.subset hc)) (by simp)
        rwa [List.append_nil] at hcut
      · exact run_line_cut q hgne ht hn
  | fold t c g ht hc _ ih =>
      have htne : t ≠ [] := by
        rintro rfl
        cases hs
      have hcont : isContinuation c = true ∧ isNewLine c = false := by
        rcases hc with rfl | rfl <;> decide
      rw [List.append_assoc] at hw
      rcases prefix_cases hw with hw | ⟨n, rfl, hn⟩
      · have hcut := run_line_cut q (n := []) hne (fun c hc => ht c (hw.subset hc)) (by simp)
        rwa [List.append_nil] at hcut
      rcases prefix_cases (a := [13, 10]) (b := c :: g ++ [13, 10]) hn with hn | ⟨w, rfl, hv⟩
      · exact run_line_cut q htne ht hn
      cases w with
      | nil => exact run_line_cut q htne ht (by simp)
      | cons d v =>
          -- the search goes on in the next line
          obtain rfl : d = c := by
            obtain ⟨z, hz⟩ := hv
            exact (List.cons.inj hz).1
          have hfold := findHeaderEndPass_fold (q ++ (t ++ ([13, 10] ++ d :: v))) (v := v) ht
            (n := [13, 10]) (by decide) (by decide) hcont.1 hcont.2
          rw [MeasuredLoop.run_of_inl (findHeaderEndLoop _) hfold]
          have hnext := ih hcont.2 (by simp) (q ++ (t ++ [13, 10])) (List.cons_ne_nil d v) hv
          simpa only [List.append_assoc] using hnext

/-! ### The header as a whole -/

/-- A text without the white space around it. -/
def Trimmed (s t : Bytes) : Prop :=
  ∃ a b, s = a ++ (t ++ b) ∧ (∀ c ∈ a ++ b, isIgnorableWhiteSpace c = true) ∧
    Stops isIgnorableWhiteSpace t ∧ Stops isIgnorableWhiteSpace t.reverse

/-- `chomp` keeps what is between the white space at either end. -/
lemma trimmed_chomp (s : Bytes) : Trimmed s (chomp s) := by
  obtain ⟨a, l, rfl, ha, hl⟩ := exists_run isIgnorableWhiteSpace s
  obtain ⟨t, b, rfl, hb, ht⟩ := exists_last_run isIgnorableWhiteSpace l
  have hchomp : chomp (a ++ (t ++ b)) = t := by
    rw [chomp, dropWhile_append_stops ha hl, rdropWhile_append_stops hb ht]
  rw [hchomp]
  refine ⟨a, b, rfl, fun c hc => (List.mem_append.mp hc).elim (ha c) (hb c), ?_, ht⟩
  cases t with
  | nil => trivial
  | cons c t => exact hl

/-- **A header with continuation lines is kept whole**: it ends where it ends, its name and value
are found around its first colon, and it is not known to end before the next line has begun. -/
theorem foldedHeader_end {name value : Bytes} (hcolon : 58 ∉ name)
    (hstart : Stops isIgnorableWhiteSpace (name ++ 58 :: value))
    (hfolds : FoldsOnly (name ++ 58 :: value))
    (hend : Stops isIgnorableWhiteSpace (name ++ 58 :: value).reverse) :
    (∀ x r, isIgnorableWhiteSpace x = false →
      findHeaderEnd (name ++ 58 :: value ++ 13 :: 10 :: x :: r) = 13 :: 10 :: x :: r ∧
      ∃ name' value', splitHeader (range (name ++ 58 :: value ++ 13 :: 10 :: x :: r)
          (findHeaderEnd (name ++ 58 :: value ++ 13 :: 10 :: x :: r))) = .ok (name', value') ∧
        Trimmed name name' ∧ Trimmed value value') ∧
    ∀ p, p <+: name ++ 58 :: value ++ [13, 10] → findHeaderEnd p = p := by
  have hfolded := hfolds.folded
  have hne : name ++ 58 :: value ≠ [] := by simp
  constructor
  · intro x r hx
    have hfound : findHeaderEnd (name ++ 58 :: value ++ 13 :: 10 :: x :: r)
        = 13 :: 10 :: x :: r := by
      rw [findHeaderEnd, run_folded hfolded _ hx]
      exact backupThroughNewlines_append hne (stops_isNewLine hend) (n := [13, 10]) (by decide) _
    refine ⟨hfound, chomp name, chomp value, ?_, trimmed_chomp name, trimmed_chomp value⟩
    rw [hfound, range_append, splitHeader_name hcolon]
  · intro p hp
    by_cases hpne : p = []
    · rw [hpne, findHeaderEnd_nil]
    · exact run_folded_cut hfolded (stops_isNewLine hstart) hne [] hpne hp

theorem foldedHeader_end_tab :
    (∀ x r, isIgnorableWhiteSpace x = false →
      findHeaderEnd (bytes "a : b\r\n\tc\r\n d" ++ 13 :: 10 :: x :: r) = 13 :: 10 :: x :: r ∧
      ∃ name' value', splitHeader (range (bytes "a : b\r\n\tc\r\n d" ++ 13 :: 10 :: x :: r)
          (findHeaderEnd (bytes "a : b\r\n\tc\r\n d" ++ 13 :: 10 :: x :: r)))
          = .ok (name', value') ∧
        Trimmed (bytes "a ") name' ∧ Trimmed (bytes " b\r\n\tc\r\n d") value') ∧
    ∀ p, p <+: bytes "a : b\r\n\tc\r\n d" ++ [13, 10] → findHeaderEnd p = p := by
  have hfolded : Folded (bytes "a " ++ 58 :: bytes " b\r\n\tc\r\n d") :=
    .fold (bytes "a : b") 9 (bytes "c\r\n d") (by decide) (.inr rfl)
      (.fold (bytes "\tc") 32 (bytes "d") (by decide) (.inl rfl) (.line (bytes " d") (by decide)))
  exact @foldedHeader_end (bytes "a ") (bytes " b\r\n\tc\r\n d") (by decide) (by decide)
    hfolded.foldsOnly (by decide)

end Arachnida.Acari
