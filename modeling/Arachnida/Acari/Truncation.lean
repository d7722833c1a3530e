import Arachnida.Acari.Framing

/-!
The beginning of a message behind its first line, up to a byte in front of the empty line.

* `HeaderBlock`: header lines one per line, behind the first line of the message.
* `endsHeaders_of_headerBlock`: no run of newlines inside is a blank line.
* `headerLoop_truncated`: **the header loop does not find the end of the headers** in a beginning of
  them.
-/

namespace Arachnida.Acari

open Library

/-- Header lines one per line, behind the end of the first line. -/
def headerBlock (headers : List Header) : Bytes := bytes "\r\n" ++ headers.flatMap headerLine

lemma tailBytes_eq (headers : List Header) (body rest : Bytes) :
    tailBytes headers body rest = headerBlock headers ++ (bytes "\r\n" ++ (body ++ rest)) := by
  simp [tailBytes, headerBlock]

/-- A header in front of the other lines. -/
lemma headerBlock_cons (h : Header) (headers : List Header) : headerBlock (h :: headers)
    = bytes "\r\n" ++ ((h.name_ ++ bytes ": " ++ h.value_) ++ headerBlock headers) := by
  simp [headerBlock, headerLine]

/-- A run of newlines ends in front of a character that is none. -/
lemma newlines_prefix {n a t x : Bytes} {c : Byte} (hn : ∀ c ∈ n, isNewLine c = true)
    (hc : isNewLine c = false) (h : n ++ a = t ++ c :: x) : n <+: t := by
  obtain ⟨r, rfl, -⟩ | ⟨r, rfl, hr⟩ := List.append_eq_append_iff.mp h
  · exact ⟨r, rfl⟩
  · cases r with
    | nil => simp
    | cons d r =>
        obtain ⟨rfl, -⟩ := List.cons.inj hr
        have hd := hn c (by simp)
        rw [hc] at hd
        cases hd

/-- One line end is no blank line. -/
lemma endsHeaders_of_sublist {n : Bytes} (h : n.Sublist (bytes "\r\n")) : endsHeaders n = false :=
  endsHeaders_sublist h (by decide)

/-- The text of a header line begins with a character that is no newline. -/
lemma IsHeaderLine.text {h : Header} (hh : IsHeaderLine h) :
    ∃ c x, h.name_ ++ bytes ": " ++ h.value_ = c :: x ∧ ∀ d ∈ c :: x, isNewLine d = false := by
  cases htext : h.name_ ++ bytes ": " ++ h.value_ with
  | nil => simp [hh.name_ne] at htext
  | cons c x =>
      refine ⟨c, x, rfl, fun d hd => ?_⟩
      rw [← htext] at hd
      rcases List.mem_append.mp hd with hd | hd
      · exact (List.mem_append.mp hd).elim (hh.name_line d)
          ((by decide : ∀ c ∈ bytes ": ", isNewLine c = false) d)
      · exact hh.value_line d hd

/-- **No run of newlines between header lines is a blank line.** -/
theorem endsHeaders_of_headerBlock {headers : List Header} (hall : ∀ h ∈ headers, IsHeaderLine h)
    {p n a : Bytes} (hn : ∀ c ∈ n, isNewLine c = true) (h : headerBlock headers = p ++ (n ++ a)) :
    endsHeaders n = false := by
  induction headers generalizing p with
  | nil =>
      refine endsHeaders_of_sublist ?_
      have hinfix : n <:+: bytes "\r\n" := ⟨p, a, by simpa [headerBlock] using h.symm⟩
      exact hinfix.sublist
  | cons x headers ih =>
      have ih := @ih fun y hy => hall y (by simp [hy])
      obtain ⟨c, text, htext, hline⟩ := (hall x (by simp)).text
      have hc := hline c (by simp)
      rw [headerBlock_cons, htext] at h
      obtain ⟨t, rfl, ht⟩ | ⟨t, hp, ht⟩ := List.append_eq_append_iff.mp h
      · -- the run begins behind the first line end
        obtain ⟨t', rfl, ht'⟩ | ⟨t', htext', ht'⟩ := List.append_eq_append_iff.mp ht
        · exact ih ht'
        · cases t' with
          | nil => exact ih (p := []) ht'.symm
          | cons d t' =>
              have hd : isNewLine d = false := hline d (htext' ▸ by simp)
              have hnil : n <+: [] := newlines_prefix hn hd (t := []) ht'
              rw [List.prefix_nil.mp hnil]
              rfl
      · have hpre : n <+: t := newlines_prefix hn hc (x := text ++ headerBlock headers) ht
        refine endsHeaders_of_sublist (hpre.sublist.trans ?_)
        rw [hp]
        exact List.sublist_append_right _ _

/-- Where the buffer ends in a blank line, it ends in a run of newlines that is one. -/
lemma EndsInBlankLine.exists_run {w : Bytes} (h : EndsInBlankLine w) :
    ∃ p n, w = p ++ n ∧ (∀ c ∈ n, isNewLine c = true) ∧ endsHeaders n = true := by
  induction h with
  | @last h n hs hne hn hends he => exact ⟨h, n, rfl, hn, hends⟩
  | @header h e hs hne he nv hsplit _ ih =>
      obtain ⟨p, n, rfl, hn, hends⟩ := ih
      exact ⟨h ++ p, n, by simp, hn, hends⟩
  | @space a u ha he _ ih =>
      obtain ⟨p, n, rfl, hn, hends⟩ := ih
      exact ⟨a ++ p, n, by simp, hn, hends⟩

section Loop

variable {M : Type*} (push : M → Header → M)

/-- **A beginning of the headers does not end them.**  If it did, the loop would stop at the same
place with another header line behind them all. -/
theorem headerLoop_truncated {headers : List Header} (hall : ∀ h ∈ headers, IsHeaderLine h)
    {w a : Bytes} (hw : headerBlock headers = w ++ a) {m : M} {s : HeaderState M} {eob : Bool}
    (hrun : (headerLoop push).run ⟨m, w, false⟩ = .ok (s, eob)) :
    s.end_of_headers_found = false := by
  -- the headers with another one behind them
  obtain ⟨x, hx⟩ : ∃ x, IsHeaderLine x :=
    ⟨⟨bytes "A", []⟩, by decide, by decide, by decide, by decide, by decide⟩
  have hall' : ∀ h ∈ headers ++ [x], IsHeaderLine h := by
    intro h hh
    rcases List.mem_append.mp hh with hh | hh
    · exact hall h hh
    · exact List.mem_singleton.mp hh ▸ hx
  have hmore := headerLoop_lines push _ hall' (R := []) trivial m
  have hbytes : bytes "\r\n" ++ ((headers ++ [x]).flatMap headerLine ++ (bytes "\r\n" ++ []))
      = w ++ (a ++ (headerLine x ++ bytes "\r\n")) := by
    rw [← List.append_assoc w, ← hw, headerBlock]
    simp
  rw [hbytes] at hmore
  have hrest : (a ++ (headerLine x ++ bytes "\r\n")).dropWhile isIgnorableWhiteSpace ≠ [] := by
    intro hnil
    obtain ⟨c, name, hname⟩ := List.exists_cons_of_ne_nil hx.name_ne
    have hstart : isIgnorableWhiteSpace c = false := by
      have hs := hx.name_start
      rw [hname] at hs
      exact hs
    have hc := List.dropWhile_eq_nil_iff.mp hnil c (by simp [headerLine, hname])
    rw [hstart] at hc
    cases hc
  have hblank : ¬ EndsInBlankLine w := by
    intro hb
    obtain ⟨p, n, rfl, hn, hends⟩ := hb.exists_run
    rw [List.append_assoc] at hw
    rw [endsHeaders_of_headerBlock hall hn hw] at hends
    cases hends
  have hout := headerLoop_append push m w
  rw [hrun] at hout
  cases hout with
  | body m' v hne stable =>
      rw [stable] at hmore
      simp [hne] at hmore
  | blank stable =>
      rw [stable] at hmore
      simp only [Except.ok.injEq, Prod.mk.injEq, HeaderState.mk.injEq] at hmore
      exact absurd hmore.1.2.1 hrest
  | closed m' stable =>
      rw [stable _ fun hb => absurd hb hblank] at hmore
      simp only [Except.ok.injEq, Prod.mk.injEq, HeaderState.mk.injEq] at hmore
      exact absurd hmore.1.2.1 hrest
  | space => rfl
  | line => rfl

end Loop

end Arachnida.Acari
