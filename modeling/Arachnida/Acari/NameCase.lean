import Arachnida.Acari.FirstLine
import Arachnida.Acari.MessageLoop

/-!
Streams of messages that differ only in the letter case of header field names.

* `toLower`: what such streams have in common; `Neutral`: that the scans of the parser do not see
  the difference.
* `findHeaderEnd_map`: a header ends at the same place in both.
* `HeadRecased`: the headers of a message in two spellings; `HeadRecased.run`: **the header loop
  goes through them in the same way.**
* `Recased`: whole streams, by the messages that are found in the first of them.
-/

namespace Arachnida.Acari

open Library

/-! ### Letters -/

/-- The lower case of a letter. -/
def toLower (c : Byte) : Byte := if 65 ≤ c ∧ c ≤ 90 then c + 32 else c

/-- The bytes that the parser looks for behind a first line: white space and the colon. -/
def marks : Bytes := [9, 10, 13, 32, 58]

/-- A change of bytes that keeps these as they are. -/
structure Neutral (f : Byte → Byte) : Prop where
  mark : ∀ c, ∀ x ∈ marks, f c = x ↔ c = x

lemma neutral_toLower : Neutral toLower := by
  refine ⟨fun c x hx => ?_⟩
  simp only [marks, List.mem_cons, List.not_mem_nil, or_false] at hx
  unfold toLower
  split_ifs with hc
  · obtain ⟨hc1, hc2⟩ := hc
    rw [UInt8.le_iff_toNat_le] at hc1 hc2
    have hadd : (c + 32).toNat = c.toNat + 32 := by
      rw [UInt8.toNat_add]
      exact Nat.mod_eq_of_lt (by simp at *; omega)
    refine iff_of_false (fun h => ?_) fun h => ?_
    · have h' := congrArg UInt8.toNat h
      rw [hadd] at h'
      rcases hx with rfl | rfl | rfl | rfl | rfl <;> simp at h' hc1 <;> omega
    · subst h
      rcases hx with rfl | rfl | rfl | rfl | rfl <;> simp at hc1
  · rfl

section Map

variable {f : Byte → Byte} (hf : Neutral f)
include hf

lemma isNewLine_map (c : Byte) : isNewLine (f c) = isNewLine c := by
  have hlf := hf.mark c 10 (by decide)
  have hcr := hf.mark c 13 (by decide)
  rw [Bool.eq_iff_iff]
  simp [isNewLine, hlf, hcr]

lemma isIgnorableWhiteSpace_map (c : Byte) :
    isIgnorableWhiteSpace (f c) = isIgnorableWhiteSpace c := by
  have htab := hf.mark c 9 (by decide)
  have hlf := hf.mark c 10 (by decide)
  have hcr := hf.mark c 13 (by decide)
  have hspace := hf.mark c 32 (by decide)
  rw [Bool.eq_iff_iff]
  simp [isIgnorableWhiteSpace, htab, hlf, hcr, hspace]

lemma advanceUntilEndOfLine_map (w : Iterator) :
    advanceUntilEndOfLine (w.map f) = (advanceUntilEndOfLine w).map f :=
  dropWhile_map_of_eq (fun c => by rw [isNewLine_map hf]) w

lemma count_map {x : Byte} (hx : x ∈ marks) (l : Bytes) :
    (l.map f).count x = l.count x := by
  rw [List.count_eq_countP, List.countP_map, List.count_eq_countP]
  refine List.countP_congr fun c _ => ?_
  simpa using hf.mark c x hx

omit hf in
lemma range_map (first last : Iterator) :
    range (first.map f) (last.map f) = (range first last).map f := by
  simp [range, List.map_take]

lemma moreHeaders_map (where_ whence : Iterator) :
    moreHeaders (where_.map f) (whence.map f) = moreHeaders where_ whence := by
  simp only [moreHeaders, range_map, count_map hf (x := 13) (by decide),
    count_map hf (x := 10) (by decide)]

lemma backupFrom_map (begin : Iterator) (d : ℕ) :
    backupFrom (begin.map f) d = (backupFrom begin d).map f := by
  induction d with
  | zero => rfl
  | succ d ih =>
      have hget : isNewLine ((begin.map f).getD d 0) = isNewLine (begin.getD d 0) := by
        rw [List.getD_eq_getElem?_getD, List.getD_eq_getElem?_getD, List.getElem?_map]
        cases begin[d]? with
        | none => rfl
        | some c => exact isNewLine_map hf c
      rw [backupFrom, backupFrom, hget, ih]
      split_ifs
      · rfl
      · rw [List.map_drop]

lemma backupThroughNewlines_map (begin where_ : Iterator) :
    backupThroughNewlines (begin.map f) (where_.map f)
      = (backupThroughNewlines begin where_).map f := by
  rw [backupThroughNewlines, backupThroughNewlines, List.length_map, List.length_map,
    backupFrom_map hf]

lemma findHeaderEndPass_map (from_where where_ : Iterator) :
    findHeaderEndPass (from_where.map f) (where_.map f)
      = (findHeaderEndPass from_where where_).map (List.map f) (List.map f) := by
  have hskip : (advanceUntilEndOfLine (where_.map f)).dropWhile isNewLine
      = ((advanceUntilEndOfLine where_).dropWhile isNewLine).map f := by
    rw [advanceUntilEndOfLine_map hf, dropWhile_map_of_eq (isNewLine_map hf)]
  simp only [findHeaderEndPass, hskip]
  cases (advanceUntilEndOfLine where_).dropWhile isNewLine with
  | nil =>
      have hback := backupThroughNewlines_map hf from_where []
      have hmore := moreHeaders_map hf (backupThroughNewlines from_where []) []
      rw [List.map_nil] at hback hmore
      simp only [List.map_nil, hback, hmore]
      split_ifs <;> rfl
  | cons c w =>
      have hback := backupThroughNewlines_map hf from_where (c :: w)
      rw [List.map_cons] at hback
      simp only [List.map_cons, isIgnorableWhiteSpace_map hf, hback]
      split_ifs <;> rfl

/-- **A header ends at the same place.** -/
theorem findHeaderEnd_map (from_where : Iterator) :
    findHeaderEnd (from_where.map f) = (findHeaderEnd from_where).map f :=
  (findHeaderEndLoop from_where).run_map (findHeaderEndLoop (from_where.map f))
    (findHeaderEndPass_map hf from_where) from_where

end Map

/-! ### Headers in two spellings -/

/-- The same bytes up to the case of letters. -/
def SameLetters (l l' : Bytes) : Prop := l.map toLower = l'.map toLower

instance (l l' : Bytes) : Decidable (SameLetters l l') := inferInstanceAs (Decidable (_ = _))

namespace SameLetters

variable {l l' k k' : Bytes}

lemma refl (l : Bytes) : SameLetters l l := rfl

lemma append (h : SameLetters l l') (hk : SameLetters k k') : SameLetters (l ++ k) (l' ++ k') := by
  rw [SameLetters, List.map_append, List.map_append, h, hk]

lemma length_eq (h : SameLetters l l') : l.length = l'.length := by
  simpa using congrArg List.length h

lemma eq_nil_iff (h : SameLetters l l') : l = [] ↔ l' = [] := by
  rw [← List.length_eq_zero_iff, ← List.length_eq_zero_iff, h.length_eq]

lemma stops (h : SameLetters l l') (hs : Stops isIgnorableWhiteSpace l) :
    Stops isIgnorableWhiteSpace l' := by
  cases l with
  | nil => rw [h.eq_nil_iff.mp rfl]; trivial
  | cons c l =>
      cases l' with
      | nil => cases h.length_eq
      | cons c' l' =>
          have hc : toLower c = toLower c' := (List.cons.inj h).1
          rw [stops_cons, ← isIgnorableWhiteSpace_map neutral_toLower] at hs ⊢
          rw [← hc]
          exact hs

lemma not_mem_colon (h : SameLetters l l') (hl : 58 ∉ l) : 58 ∉ l' := by
  intro hl'
  have hcolon : ∀ c, toLower c = 58 ↔ c = 58 := fun c => neutral_toLower.mark c 58 (by decide)
  have hmem : (58 : Byte) ∈ l'.map toLower := List.mem_map.mpr ⟨58, hl', (hcolon 58).mpr rfl⟩
  rw [← h] at hmem
  obtain ⟨c, hc, h58⟩ := List.mem_map.mp hmem
  exact hl ((hcolon c).mp h58 ▸ hc)

/-- A header ends at the same place in both. -/
lemma findHeaderEnd_eq {e e' : Bytes} (h : SameLetters l l') (he : SameLetters e e')
    (hsuffix : e' <:+ l') (hend : findHeaderEnd l = e) : findHeaderEnd l' = e' := by
  have hlength : (findHeaderEnd l').length = e'.length := by
    calc (findHeaderEnd l').length
        = (findHeaderEnd (l'.map toLower)).length := by
          rw [findHeaderEnd_map neutral_toLower, List.length_map]
      _ = (findHeaderEnd (l.map toLower)).length := by rw [h]
      _ = e.length := by rw [findHeaderEnd_map neutral_toLower, List.length_map, hend]
      _ = e'.length := he.length_eq
  exact (List.suffix_of_suffix_length_le (findHeaderEnd_suffix l') hsuffix hlength.le).eq_of_length
    hlength

end SameLetters

/-- The headers of a message from the end of its first line on, in two spellings, with the headers
that they are, whether they are complete, and what is behind them. -/
inductive HeadRecased : Bytes → Bytes → List Header → List Header → Bool → Bytes → Bytes → Prop
  | closed {a v v' : Bytes} (ha : ∀ c ∈ a, isIgnorableWhiteSpace c = true)
      (hends : endsHeaders a = true) (hv : Stops isIgnorableWhiteSpace v) :
      HeadRecased (a ++ v) (a ++ v') [] [] true v v'
  | unknown {a name name' rest : Bytes} (ha : ∀ c ∈ a, isIgnorableWhiteSpace c = true)
      (hends : endsHeaders a = false) (hs : Stops isIgnorableWhiteSpace (name ++ rest))
      (hend : findHeaderEnd (name ++ rest) = name ++ rest) (hcolon : 58 ∉ name)
      (hname : SameLetters name name') :
      HeadRecased (a ++ (name ++ rest)) (a ++ (name' ++ rest)) [] [] false (name ++ rest)
        (name' ++ rest)
  | header {a name name' value e e' v v' : Bytes} {hs hs' : List Header} {found : Bool}
      (ha : ∀ c ∈ a, isIgnorableWhiteSpace c = true) (hends : endsHeaders a = false)
      (hstops : Stops isIgnorableWhiteSpace (name ++ 58 :: value ++ e))
      (hend : findHeaderEnd (name ++ 58 :: value ++ e) = e) (hcolon : 58 ∉ name)
      (hname : SameLetters name name') (hnext : HeadRecased e e' hs hs' found v v') :
      HeadRecased (a ++ (name ++ 58 :: value ++ e)) (a ++ (name' ++ 58 :: value ++ e'))
        (⟨chomp name, chomp value⟩ :: hs) (⟨chomp name', chomp value⟩ :: hs') found v v'

namespace HeadRecased

variable {w w' v v' : Bytes} {hs hs' : List Header} {found : Bool}

lemma sameLetters (h : HeadRecased w w' hs hs' found v v') (hv : SameLetters v v') :
    SameLetters w w' := by
  induction h with
  | closed => exact (SameLetters.refl _).append hv
  | unknown _ _ _ _ _ hname => exact (SameLetters.refl _).append (hname.append (.refl _))
  | header _ _ _ _ _ hname _ ih =>
      exact (SameLetters.refl _).append ((hname.append (.refl _)).append (ih hv))

/-- Only the names differ. -/
lemma values (h : HeadRecased w w' hs hs' found v v') :
    hs.map Header.value_ = hs'.map Header.value_ := by
  induction h with
  | closed => rfl
  | unknown => rfl
  | header _ _ _ _ _ _ _ ih => rw [List.map_cons, List.map_cons, ih]

variable {M : Type*} (push : M → Header → M)

/-- **The header loop goes through both spellings in the same way.** -/
theorem run (h : HeadRecased w w' hs hs' found v v') (hv : SameLetters v v') (m m' : M) :
    (headerLoop push).run ⟨m, w, false⟩ = .ok (⟨hs.foldl push m, v, found⟩, !found) ∧
      (headerLoop push).run ⟨m', w', false⟩ = .ok (⟨hs'.foldl push m', v', found⟩, !found) := by
  induction h generalizing m m' with
  | closed ha hends hstops =>
      exact ⟨(headerLoop push).run_of_inr (headerPass_closed ha hstops false hends),
        (headerLoop push).run_of_inr (headerPass_closed ha (hv.stops hstops) false hends)⟩
  | unknown ha hends hstops hend hcolon hname =>
      have hend' := hv.findHeaderEnd_eq hv (List.suffix_refl _) hend
      rw [headerLoop_skip push m ha hstops hends,
        headerLoop_skip push m' ha (hv.stops hstops) hends,
        headerLoop_unknown push m hstops hend, headerLoop_unknown push m' (hv.stops hstops) hend']
      exact ⟨rfl, rfl⟩
  | @header a name name' value e e' v v' hs hs' found ha hends hstops hend hcolon hname hnext ih =>
      have he : SameLetters e e' := hnext.sameLetters hv
      have hline : SameLetters (name ++ 58 :: value ++ e) (name' ++ 58 :: value ++ e') :=
        (hname.append (.refl _)).append he
      have hend' := hline.findHeaderEnd_eq he (List.suffix_append _ _) hend
      have hstops' := hline.stops hstops
      have hne : name ++ 58 :: value ≠ [] := by simp
      have hne' : name' ++ 58 :: value ≠ [] := by simp
      have hen : e ≠ [] := by
        rw [← hend]
        exact findHeaderEnd_ne_nil (by simp) (stops_isNewLine hstops)
      have hen' : e' ≠ [] := by
        rw [← hend']
        exact findHeaderEnd_ne_nil (by simp) (stops_isNewLine hstops')
      rw [headerLoop_skip push m ha hstops hends, headerLoop_skip push m' ha hstops' hends,
        headerLoop_header push hstops hne hend hen (splitHeader_name hcolon value),
        headerLoop_header push hstops' hne' hend' hen'
          (splitHeader_name (hname.not_mem_colon hcolon) value)]
      exact ih hv _ _

end HeadRecased

/-! ### Streams in two spellings -/

/-- The size that headers announce for the body. -/
def Announces (headers : List Header) (n : ℕ) : Prop :=
  contentLength headers = .ok (some n) ∨ (contentLength headers = .ok none ∧ n = 0)

section Announces

variable {headers : List Header} {n : ℕ}

lemma Announces.unique {n' : ℕ} (h : Announces headers n) (h' : Announces headers n') : n = n' := by
  obtain hlen | ⟨hlen, rfl⟩ := h <;> obtain hlen' | ⟨hlen', rfl⟩ := h' <;>
    simp [hlen] at hlen' <;> omega

/-- The body that headers announce, if it is there. -/
lemma Announces.findBody (h : Announces headers n) (v : Bytes) : findBody headers v
    = if v.length < n then .ok none else .ok (some (v.take n, v.drop n)) := by
  obtain hlen | ⟨hlen, rfl⟩ := h
  · simp only [Acari.findBody, hlen]
  · simp [Acari.findBody, hlen]

lemma exists_announces {v : Bytes} {found : Option (Bytes × Iterator)}
    (h : findBody headers v = .ok found) : ∃ n, Announces headers n := by
  rw [findBody] at h
  cases hlen : contentLength headers with
  | error f =>
      simp only [hlen] at h
      cases h
  | ok size =>
      cases size with
      | none => exact ⟨0, .inr ⟨hlen, rfl⟩⟩
      | some n => exact ⟨n, .inl hlen⟩

/-- Where the body is there, its size was announced. -/
lemma announces_of_findBody {body rest : Bytes}
    (h : findBody headers (body ++ rest) = .ok (some (body, rest))) :
    Announces headers body.length := by
  obtain ⟨n, hn⟩ := exists_announces h
  rw [hn.findBody] at h
  split_ifs at h with hlt
  · cases h
  · simp only [Except.ok.injEq, Option.some.injEq, Prod.mk.injEq] at h
    have hlength := congrArg List.length h.1
    rw [List.length_take, min_eq_left (not_lt.mp hlt)] at hlength
    rwa [← hlength]

/-- Where it is not, more was announced than is there. -/
lemma announces_of_waiting {v : Bytes} (h : findBody headers v = .ok none) :
    ∃ n, Announces headers n ∧ v.length < n := by
  obtain ⟨n, hn⟩ := exists_announces h
  rw [hn.findBody] at h
  split_ifs at h with hlt
  · exact ⟨n, hn, hlt⟩
  · cases h

end Announces

/-- Two streams of messages, the second with other letters in the names of headers only.  Of every
message whose headers are complete, `K` holds of its headers in the two spellings and of the number
of bytes behind them. -/
inductive Recased {M : Type*} (extract : Iterator → Except Failure (Option M × Iterator))
    (K : List Header → List Header → ℕ → Prop) : Bytes → Bytes → Prop
  | same (b : Bytes) : Recased extract K b b
  | headers {l w w' v v' : Bytes} {m : M} {hs hs' : List Header}
      (hline : extract (l ++ w) = .ok (some m, w)) (hhead : HeadRecased w w' hs hs' false v v')
      (hv : SameLetters v v') : Recased extract K (l ++ w) (l ++ w')
  | body {l w w' v : Bytes} {m : M} {hs hs' : List Header}
      (hline : extract (l ++ w) = .ok (some m, w)) (hhead : HeadRecased w w' hs hs' true v v)
      (hbody : findBody hs v = .ok none) (hK : K hs hs' v.length) :
      Recased extract K (l ++ w) (l ++ w')
  | message {l w w' body rest rest' : Bytes} {m : M} {hs hs' : List Header}
      (hline : extract (l ++ w) = .ok (some m, w))
      (hhead : HeadRecased w w' hs hs' true (body ++ rest) (body ++ rest'))
      (hbody : findBody hs (body ++ rest) = .ok (some (body, rest)))
      (hK : K hs hs' (body ++ rest).length) (hrest : Recased extract K rest rest') :
      Recased extract K (l ++ w) (l ++ w')

section Recased

variable {M : Type*} {extract : Iterator → Except Failure (Option M × Iterator)}
  {K : List Header → List Header → ℕ → Prop} {b b' : Bytes}

lemma Recased.sameLetters (h : Recased extract K b b') : SameLetters b b' := by
  induction h with
  | same => exact .refl _
  | headers _ hhead hv => exact (SameLetters.refl _).append (hhead.sameLetters hv)
  | body _ hhead => exact (SameLetters.refl _).append (hhead.sameLetters (.refl _))
  | message _ hhead _ _ _ ih =>
      exact (SameLetters.refl _).append (hhead.sameLetters ((SameLetters.refl _).append ih))

end Recased

/-- The white space at the beginning of the headers is the same in both. -/
lemma HeadRecased.first {w' v v' : Bytes} {hs hs' : List Header} {found : Bool} {c : Byte}
    {x : Bytes} (h : HeadRecased (c :: x) w' hs hs' found v v')
    (hc : isIgnorableWhiteSpace c = true) : ∃ y, w' = c :: y := by
  have hfirst : ∀ {a u : Bytes}, c :: x = a ++ u → Stops isIgnorableWhiteSpace u →
      ∀ u', ∃ y, a ++ u' = c :: y := by
    intro a u hw hu u'
    cases a with
    | nil =>
        rw [List.nil_append] at hw
        rw [← hw, stops_cons, hc] at hu
        cases hu
    | cons d a => exact ⟨a ++ u', by rw [(List.cons.inj hw).1, List.cons_append]⟩
  generalize hw : c :: x = w at h
  cases h with
  | closed ha hends hv => exact hfirst hw hv _
  | unknown ha hends hs => exact hfirst hw hs _
  | header ha hends hstops => exact hfirst hw hstops _

/-- The first line is found in both spellings. -/
lemma HeadRecased.line {M : Type*} {extract : Iterator → Except Failure (Option M × Iterator)}
    (hextract : LineFound extract) {l w w' v v' : Bytes} {m : M} {hs hs' : List Header}
    {found : Bool}
    (h : HeadRecased w w' hs hs' found v v') (hline : extract (l ++ w) = .ok (some m, w)) :
    extract (l ++ w') = .ok (some m, w') := by
  obtain ⟨c, x, rfl, hc, hmore⟩ := hextract l w m hline
  obtain ⟨y, rfl⟩ := h.first hc
  exact hmore y

/-- A message is found in both spellings, with its headers. -/
lemma HeadRecased.both {M : Type*} {extract : Iterator → Except Failure (Option M × Iterator)}
    (hextract : LineFound extract) (push : M → Header → M) {l w w' v v' : Bytes} {m : M}
    {hs hs' : List Header} {found : Bool} (h : HeadRecased w w' hs hs' found v v')
    (hv : SameLetters v v') (hline : extract (l ++ w) = .ok (some m, w)) :
    extract (l ++ w') = .ok (some m, w') ∧
      (headerLoop push).run ⟨m, w, false⟩ = .ok (⟨hs.foldl push m, v, found⟩, !found) ∧
      (headerLoop push).run ⟨m, w', false⟩ = .ok (⟨hs'.foldl push m, v', found⟩, !found) :=
  ⟨h.line hextract hline, h.run push hv m m⟩

end Arachnida.Acari
