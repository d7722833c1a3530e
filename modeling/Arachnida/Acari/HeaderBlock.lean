import Arachnida.Acari.MessageLoop

/-!
The bytes behind the headers of a message, as HTTP has it: behind the first empty line.

* `behindHeaders`: these bytes; nothing of the parser is used but the count of newlines.
* `Skips`: a later position with the same first empty line, or one behind an empty line with white
  space behind it.
* `headerLoop_behindHeaders`: **where a message has headers, its loop ends behind the first empty
  line, or there is white space behind that line.**
-/

namespace Arachnida.Acari

open Library

/-! ### The first empty line -/

/-- Behind a line end: a carriage return and a line feed, or one of them. -/
def skipLineEnd : Bytes → Bytes
  | 13 :: 10 :: rest => rest
  | _ :: rest => rest
  | [] => []

/-- The bytes behind the first empty line: behind the second line end of the first newlines that end
the headers. -/
def behindHeaders : Bytes → Bytes
  | [] => []
  | c :: rest =>
      if isNewLine c && endsHeaders ((c :: rest).takeWhile isNewLine) then
        skipLineEnd (skipLineEnd (c :: rest))
      else behindHeaders rest

example : behindHeaders (bytes "a: b\r\n c\r\n\r\n de") = bytes " de" := by decide

variable {n t u v w : Bytes}

lemma skipLineEnd_suffix (w : Bytes) : skipLineEnd w <:+ w := by
  unfold skipLineEnd
  split
  · exact ⟨[13, 10], rfl⟩
  · exact List.suffix_cons _ _
  · exact List.suffix_rfl

/-- A line end takes one newline of each kind at most. -/
lemma skipLineEnd_append (hne : n ≠ []) (hv : Stops isNewLine v) :
    ∃ e n', n = e ++ n' ∧ skipLineEnd (n ++ v) = n' ++ v ∧ endsHeaders e = false := by
  match n, hne with
  | [c], _ =>
      cases v with
      | nil => exact ⟨[c], [], rfl, by simp [skipLineEnd], by simp [endsHeaders]; grind⟩
      | cons x v =>
          have hx : x ≠ 10 := by
            rintro rfl
            cases hv
          exact ⟨[c], [], rfl, by simp [skipLineEnd, hx], by simp [endsHeaders]; grind⟩
  | c :: d :: n, _ =>
      by_cases hcrlf : c = 13 ∧ d = 10
      · obtain ⟨rfl, rfl⟩ := hcrlf
        exact ⟨[13, 10], n, rfl, rfl, by decide⟩
      · refine ⟨[c], d :: n, rfl, ?_, by simp [endsHeaders]; grind⟩
        simp only [List.cons_append]
        unfold skipLineEnd
        grind

lemma behindHeaders_suffix (w : Bytes) : behindHeaders w <:+ w := by
  induction w with
  | nil => exact List.suffix_rfl
  | cons c w ih =>
      rw [behindHeaders]
      split_ifs
      · exact (skipLineEnd_suffix _).trans (skipLineEnd_suffix _)
      · exact ih.trans (List.suffix_cons c w)

/-- Text without newlines. -/
lemma behindHeaders_text (ht : ∀ c ∈ t, isNewLine c = false) (w : Bytes) :
    behindHeaders (t ++ w) = behindHeaders w := by
  induction t with
  | nil => rfl
  | cons c t ih =>
      rw [List.cons_append, behindHeaders, ht c (by simp)]
      exact ih fun c' hc' => ht c' (by simp [hc'])

/-- The newlines at the front of a run that ends. -/
lemma takeWhile_newLines_within (n : Bytes) (hv : Stops isNewLine v) :
    (n ++ v).takeWhile isNewLine <+: n := by
  obtain ⟨m, u, rfl, hm, hu⟩ := exists_run isNewLine n
  rw [List.append_assoc, takeWhile_append_stops hm (?_ : Stops isNewLine (u ++ v))]
  · exact List.prefix_append m u
  · cases u with
    | nil => exact hv
    | cons c u => exact hu

/-- White space without an empty line. -/
lemma behindHeaders_space (hends : endsHeaders n = false) (hv : Stops isNewLine v) :
    behindHeaders (n ++ v) = behindHeaders v := by
  induction n with
  | nil => rfl
  | cons c n ih =>
      have hrun : endsHeaders ((c :: n ++ v).takeWhile isNewLine) = false :=
        endsHeaders_sublist (takeWhile_newLines_within (c :: n) hv).sublist hends
      rw [List.cons_append] at hrun ⊢
      rw [behindHeaders, hrun, Bool.and_false, if_neg Bool.false_ne_true]
      exact ih (endsHeaders_sublist (List.sublist_cons_self c n) hends)

/-- Newlines with an empty line: what is left of them, and what follows. -/
lemma behindHeaders_blank (hn : ∀ c ∈ n, isNewLine c = true) (hends : endsHeaders n = true)
    (hv : Stops isNewLine v) : ∃ n', behindHeaders (n ++ v) = n' ++ v ∧ n' <:+ n := by
  have hne : n ≠ [] := by
    rintro rfl
    cases hends
  obtain ⟨e, n₁, rfl, hskip, he⟩ := skipLineEnd_append hne hv
  have hne₁ : n₁ ≠ [] := by
    rintro rfl
    rw [List.append_nil, he] at hends
    cases hends
  obtain ⟨e', n₂, rfl, hskip', -⟩ := skipLineEnd_append hne₁ hv
  refine ⟨n₂, ?_, ⟨e ++ e', by simp⟩⟩
  have hrun : (e ++ (e' ++ n₂) ++ v).takeWhile isNewLine = e ++ (e' ++ n₂) :=
    takeWhile_append_stops hn hv
  cases hw : e ++ (e' ++ n₂) with
  | nil => exact absurd hw hne
  | cons c l =>
      rw [hw] at hn hends hskip hrun
      rw [List.cons_append] at hskip hrun ⊢
      rw [behindHeaders, hrun, hends, hn c (by simp), Bool.and_self, if_pos rfl, hskip, hskip']

/-! ### Where the header loop ends -/

/-- From `u` the first empty line is that of `e`, or one with white space behind it. -/
def Skips (u e : Bytes) : Prop :=
  behindHeaders u = behindHeaders e ∨
    (¬ Stops isIgnorableWhiteSpace (behindHeaders u) ∧ behindHeaders e <:+ behindHeaders u)

lemma Skips.trans {e : Bytes} (h : Skips u w) (h' : Skips w e) : Skips u e := by
  obtain heq | ⟨hspace, hsuffix⟩ := h
  · rw [Skips, heq]
    exact h'
  · obtain heq' | ⟨-, hsuffix'⟩ := h'
    · exact .inr ⟨hspace, heq' ▸ hsuffix⟩
    · exact .inr ⟨hspace, hsuffix'.trans hsuffix⟩

/-- Newlines behind which the header goes on. -/
lemma skips_fold {x : Byte} (hn : ∀ c ∈ n, isNewLine c = true) (hx : isContinuation x = true)
    (hx' : isNewLine x = false) : Skips (n ++ x :: v) (x :: v) := by
  have hv : Stops isNewLine (x :: v) := hx'
  cases hends : endsHeaders n with
  | false => exact .inl (behindHeaders_space hends hv)
  | true =>
      obtain ⟨n', hbehind, hn'⟩ := behindHeaders_blank hn hends hv
      refine .inr ⟨?_, ?_⟩
      · rw [hbehind]
        cases n' with
        | nil => simpa using (isIgnorableWhiteSpace_iff x).mpr (.inr hx)
        | cons c n' =>
            have hc := isIgnorableWhiteSpace_of_isNewLine (hn c (hn'.subset (by simp)))
            simpa using hc
      · rw [hbehind]
        exact (behindHeaders_suffix _).trans (List.suffix_append _ _)

/-- The search for the end of a header passes over empty lines with white space behind them only. -/
lemma findHeaderEnd_skips {u : Bytes} (hne : u ≠ []) (hu : Stops isNewLine u) :
    findHeaderEnd u = u ∨ Skips u (findHeaderEnd u) := by
  refine (findHeaderEndLoop u).run_rec
    (P := fun w r => ∀ p, u = p ++ w → w ≠ [] → Stops isNewLine w → r = u ∨ Skips w r)
    ?last ?next u [] rfl hne hu
  case last =>
    intro w r hr p hp hw hs
    obtain ⟨t, n, v, rfl, htne, ht, hn, hv, hnv, hlast⟩ := exists_text hw hs
    have hback : backupThroughNewlines u v = n ++ v := by
      rw [hp, ← List.append_assoc]
      exact backupThroughNewlines_append (by simp [htne]) (hlast p) hn v
    have htext : Skips (t ++ (n ++ v)) (n ++ v) := .inl (behindHeaders_text ht _)
    cases v with
    | nil =>
        rw [List.append_nil] at hback htext hr ⊢
        have hpass := (findHeaderEndPass_end u ht hn).symm.trans hr
        rw [hback] at hpass
        split_ifs at hpass
        · exact .inr (Sum.inr.inj hpass ▸ htext)
        · exact .inl (Sum.inr.inj hpass).symm
    | cons x v =>
        have hnn : n ≠ [] := fun h => by simpa using hnv h
        cases hx : isIgnorableWhiteSpace x with
        | false =>
            have hpass := (findHeaderEndPass_text u ht hn hnn hx).symm.trans hr
            rw [hback] at hpass
            exact .inr (Sum.inr.inj hpass ▸ htext)
        | true =>
            have hc := ((isIgnorableWhiteSpace_iff x).mp hx).resolve_left (Bool.eq_false_iff.mp hv)
            cases (findHeaderEndPass_fold u ht hn hnn hc hv).symm.trans hr
  case next =>
    intro w w' hw' ih p hp hw hs
    obtain ⟨t, n, v, rfl, ht, hn, hv, hnv⟩ := exists_line w
    cases v with
    | nil =>
        rw [List.append_nil] at hw'
        cases (findHeaderEndPass_end u ht hn).symm.trans hw'
    | cons x v =>
        have hnn : n ≠ [] := fun h => by simpa using hnv h
        cases hx : isIgnorableWhiteSpace x with
        | false => cases (findHeaderEndPass_text u ht hn hnn hx).symm.trans hw'
        | true =>
            have hc := ((isIgnorableWhiteSpace_iff x).mp hx).resolve_left (Bool.eq_false_iff.mp hv)
            obtain rfl : x :: v = w' :=
              Sum.inl.inj ((findHeaderEndPass_fold u ht hn hnn hc hv).symm.trans hw')
            have htext : Skips (t ++ (n ++ x :: v)) (n ++ x :: v) := .inl (behindHeaders_text ht _)
            refine (ih (p ++ t ++ n) (by rw [hp]; simp) (by simp) hv).imp_right fun h => ?_
            exact htext.trans ((skips_fold hn hc hv).trans h)

/-- Where the headers were found to end: behind the first empty line, or there is white space behind
that line. -/
def Behind (w v : Bytes) : Prop :=
  v <:+ behindHeaders w ∧ (Stops isIgnorableWhiteSpace (behindHeaders w) → behindHeaders w = v)

lemma Skips.behind {e : Bytes} (h : Skips u e) (hv : Behind e v) : Behind u v := by
  obtain heq | ⟨hspace, hsuffix⟩ := h
  · rw [Behind, heq]
    exact hv
  · exact ⟨hv.1.trans hsuffix, fun hstops => absurd hstops hspace⟩

variable {M : Type*} {push : M → Header → M} {m m' : M} {eob : Bool}

/-- Behind a header, newlines and the next header or the body. -/
lemma behind_newLines (hn : ∀ c ∈ n, isNewLine c = true) (hv : Stops isIgnorableWhiteSpace v)
    {v' : Bytes} (hrun : (headerLoop push).run ⟨m, n ++ v, false⟩ = .ok (⟨m', v', true⟩, eob))
    (hnext : (headerLoop push).run ⟨m, v, false⟩ = .ok (⟨m', v', true⟩, eob) → Behind v v') :
    Behind (n ++ v) v' := by
  have hn' : ∀ c ∈ n, isIgnorableWhiteSpace c = true :=
    fun c hc => isIgnorableWhiteSpace_of_isNewLine (hn c hc)
  cases hends : endsHeaders n with
  | true =>
      rw [(headerLoop push).run_of_inr (headerPass_closed hn' hv false hends)] at hrun
      obtain ⟨n', hbehind, hsuffix⟩ := behindHeaders_blank hn hends (stops_isNewLine hv)
      obtain rfl : v = v' := congrArg (fun s : HeaderState M × Bool => s.1.where_)
          (Except.ok.inj hrun)
      rw [Behind, hbehind]
      refine ⟨List.suffix_append n' v, fun hstops => ?_⟩
      cases n' with
      | nil => rfl
      | cons c n' => simp [hn' c (hsuffix.subset (by simp))] at hstops
  | false =>
      rw [headerLoop_skip push m hn' hv hends] at hrun
      rw [Behind, behindHeaders_space hends (stops_isNewLine hv)]
      exact hnext hrun

/-- The loop goes on behind a header. -/
lemma headerLoop_next {h e v' : Bytes} (hs : Stops isIgnorableWhiteSpace (h ++ e)) (hne : h ≠ [])
    (he : findHeaderEnd (h ++ e) = e) (hen : e ≠ [])
    (hrun : (headerLoop push).run ⟨m, h ++ e, false⟩ = .ok (⟨m', v', true⟩, eob)) :
    ∃ m₁, (headerLoop push).run ⟨m₁, e, false⟩ = .ok (⟨m', v', true⟩, eob) := by
  cases hsplit : splitHeader h with
  | error f =>
      rw [headerLoop_invalid push hs hne he hsplit] at hrun
      cases hrun
  | ok nv =>
      rw [headerLoop_header push hs hne he hen hsplit] at hrun
      exact ⟨_, hrun⟩

/-- From the beginning of a header on. -/
theorem behind_header {u v' : Bytes} (hu : Stops isIgnorableWhiteSpace u)
    (hrun : (headerLoop push).run ⟨m, u, false⟩ = .ok (⟨m', v', true⟩, eob)) : Behind u v' := by
  induction hlen : u.length using Nat.strong_induction_on generalizing m u with
  | _ len ih =>
      have hunknown : findHeaderEnd u ≠ u := by
        intro h
        rw [headerLoop_unknown push m hu h] at hrun
        simp at hrun
      have hne : u ≠ [] := by
        rintro rfl
        exact hunknown findHeaderEnd_nil
      have hskips := (findHeaderEnd_skips hne (stops_isNewLine hu)).resolve_left hunknown
      have hfound := findHeaderEnd_cases hne (stops_isNewLine hu)
      generalize hend : findHeaderEnd u = e at hunknown hskips hfound
      cases hfound with
      | unknown => exact absurd rfl hunknown
      | inside h n v x hb hneh hn hnn hx stable =>
          subst hb
          obtain ⟨m₁, hnext⟩ := headerLoop_next hu hneh hend (by simp [hnn]) hrun
          have hv : Stops isIgnorableWhiteSpace (x :: v) := hx
          refine hskips.behind (behind_newLines hn hv hnext fun hrun' => ih _ ?_ hv hrun' rfl)
          simp only [List.length_append] at hlen ⊢
          have := List.length_pos_of_ne_nil hneh
          omega
      | atEnd h n hb hneh hn hends stable =>
          have hnn : e ≠ [] := hend ▸ findHeaderEnd_ne_nil hne (stops_isNewLine hu)
          subst hb
          obtain ⟨m₁, hnext⟩ := headerLoop_next hu hneh hend hnn hrun
          rw [← List.append_nil e] at hnext
          refine hskips.behind
            (List.append_nil e ▸ behind_newLines hn stops_nil hnext fun hrun' => ?_)
          rw [headerLoop_unknown push m₁ stops_nil findHeaderEnd_nil] at hrun'
          simp at hrun'

/-- **Where a message has headers**, their loop ends behind the first empty line, or there is white
space behind that line. -/
theorem headerLoop_behindHeaders {w v : Bytes}
    (hrun : (headerLoop push).run ⟨m, w, false⟩ = .ok (⟨m', v, true⟩, eob)) :
    m' = m ∨ Behind w v := by
  obtain ⟨a, u, rfl, ha, hu⟩ := exists_run isIgnorableWhiteSpace w
  cases hends : endsHeaders a with
  | true =>
      rw [(headerLoop push).run_of_inr (headerPass_closed ha hu false hends)] at hrun
      exact .inl (congrArg (fun s : HeaderState M × Bool => s.1.message) (Except.ok.inj hrun)).symm
  | false =>
      rw [headerLoop_skip push m ha hu hends] at hrun
      rw [Behind, behindHeaders_space hends (stops_isNewLine hu)]
      exact .inr (behind_header hu hrun)

end Arachnida.Acari
