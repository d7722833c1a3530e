import Arachnida.Spin.Private.Grammar

/-!
Chunked bodies, and `Chunked_Body_` of `lib/Spin/Private/Grammar.h`.

* `Chunk`, `encodeChunked`: a chunk with its size in digits, and the encoding of a body.
* `Continued`, `header_continued`: in what an entity header matches, every line feed is quoted or
  begins a continuation.
* `chunk_of_last_chunk`: what `last_chunk_` matches in front of an empty line, `chunk_` matches
  with it.
* `not_matchedInFull`: **no chunked body is matched in full**; `chunks_matched`: **the chunks are
  matched with the last one among them**, if their sizes are read as what they are.
-/

namespace Arachnida.Spin.Private

open Library Expression Outcome Rule Acari

/-! ### Chunked bodies -/

/-- A chunk: its size in digits, and the data. -/
structure Chunk where
  size : Bytes
  data : Bytes
  hex : IsHex size
  numeral_eq : numeral size = data.length
  nonempty : data ≠ []
  short : data.length < 2 ^ 32

/-- A line break. -/
def crlf : Bytes := [13, 10]

/-- A size with its data. -/
def encodeChunk (size data : Bytes) : Bytes := size ++ crlf ++ data ++ crlf

/-- The encoding of a body: the chunks, the last one of size zero, and an empty trailer. -/
def encodeChunked (chunks : List Chunk) : Bytes :=
  (chunks.flatMap fun c => encodeChunk c.size c.data) ++ bytes "0\r\n\r\n"

/-- `Chunked_Body_` matches a whole text. -/
def MatchedInFull (charSigned : Bool) (chunk_size_ : ℕ) (text : Bytes) : Prop :=
  ∃ s, Parses (definition charSigned) (rule Chunked_Body_) chunk_size_ text (matched [] s)

variable {charSigned : Bool} {s s' : ℕ} {l k : Bytes}

/-! ### Classes of characters -/

lemma isClass_ch (c : Char) :
    IsClass (definition charSigned) (ch_p c) (· = UInt8.ofNat c.toNat) := IsClass.chr

lemma isClass_octet :
    IsClass (definition charSigned) (rule OCTET_) (inRange charSigned 0 255) :=
  IsClass.rule IsClass.chr

lemma isClass_char : IsClass (definition charSigned) (rule CHAR_) (inRange charSigned 0 127) :=
  IsClass.rule IsClass.chr

lemma isClass_blank :
    IsClass (definition charSigned) (rule SP_ <|> rule HT_) fun c => c = 32 || c = 9 :=
  (IsClass.rule (isClass_ch ' ')).alt (IsClass.rule (isClass_ch '\t'))

/-- The line feed is a control character. -/
lemma isClass_ctl : ∃ p, IsClass (definition charSigned) (rule CTL_) p ∧ p 10 = true :=
  ⟨_, IsClass.rule (IsClass.alt IsClass.chr IsClass.chr), by cases charSigned <;> decide⟩

lemma isClass_separators : ∃ p, IsClass (definition charSigned) (rule separators_) p := by
  apply Exists.intro
  apply IsClass.rule
  repeat' apply IsClass.alt
  all_goals first | exact isClass_ch _ | exact IsClass.rule (isClass_ch _)

lemma isClass_hex : IsClass (definition charSigned) (rule HEX_) isxdigit := by
  have hclass : IsClass (definition charSigned) (rule HEX_) fun c =>
      inRange charSigned 97 102 c || (inRange charSigned 65 70 c || inRange charSigned 48 57 c) :=
    IsClass.rule (IsClass.alt IsClass.chr (IsClass.alt IsClass.chr (IsClass.rule IsClass.chr)))
  have hall : ∀ charSigned, ∀ n < 256, (inRange charSigned 97 102 (UInt8.ofNat n) ||
      (inRange charSigned 65 70 (UInt8.ofNat n) || inRange charSigned 48 57 (UInt8.ofNat n)))
        = isxdigit (UInt8.ofNat n) := by decide +kernel
  convert hclass using 1
  funext c
  have hc := hall charSigned c.toNat c.toNat_lt
  rw [UInt8.ofNat_toNat] at hc
  exact hc.symm

lemma crlf_matched (h : Parses (definition charSigned) (rule CRLF_) s l (matched k s')) :
    l = crlf ++ k := by
  obtain ⟨m, t, hcr, hlf⟩ := seq_matched (parses_rule.mp h)
  obtain ⟨c, hc, rfl⟩ := (IsClass.rule (isClass_ch '\r')).taken hcr
  obtain ⟨d, hd, rfl⟩ := (IsClass.rule (isClass_ch '\n')).taken hlf
  obtain rfl : c = 13 := of_decide_eq_true hc
  obtain rfl : d = 10 := of_decide_eq_true hd
  rfl

lemma parses_crlf (s : ℕ) (k : Bytes) :
    Parses (definition charSigned) (rule CRLF_) s (crlf ++ k) (matched k s) :=
  parses_rule.mpr (((IsClass.rule (isClass_ch '\r')).takes rfl s (10 :: k)).seq
    ((IsClass.rule (isClass_ch '\n')).takes rfl s k))

/-! ### Line feeds in a header -/

/-- Every line feed is quoted or begins a continuation. -/
def Continued (t : Bytes) : Prop :=
  ∀ u v, t = u ++ 10 :: v → u.getLast? = some 92 ∨ v.head? = some 32 ∨ v.head? = some 9

lemma continued_of_not_mem {t : Bytes} (h : 10 ∉ t) : Continued t := by
  rintro u v rfl
  exact absurd (by simp) h

lemma Continued.append {t t' : Bytes} (h : Continued t) (h' : Continued t') :
    Continued (t ++ t') := by
  intro u v heq
  rcases List.append_eq_append_iff.mp heq with ⟨m, rfl, hm⟩ | ⟨m, rfl, hm⟩
  · -- the line feed is in the second part
    rcases h' m v hm with hlast | hhead
    · left
      rw [List.getLast?_append, hlast]
      rfl
    · exact .inr hhead
  · -- it is in the first part, or at the beginning of the second
    cases m with
    | nil =>
        rw [List.nil_append] at hm
        rcases h' [] v hm.symm with hlast | hhead
        · cases hlast
        · exact .inr hhead
    | cons c m =>
        obtain ⟨rfl, rfl⟩ := List.cons.inj hm
        rcases h u m rfl with hlast | hhead
        · exact .inl hlast
        · right
          cases m with
          | nil => rcases hhead with hhead | hhead <;> cases hhead
          | cons d m => exact hhead

/-- A line break in front of a blank. -/
lemma continued_fold {t : Bytes} (hne : t ≠ []) (ht : ∀ c ∈ t, (c = 32 || c = 9) = true) :
    Continued (crlf ++ t) := by
  have hmem : 10 ∉ t := fun h => absurd (ht 10 h) (by decide)
  intro u v heq
  match u with
  | [] => cases heq
  | [c] =>
      obtain rfl : t = v := by
        have htail := (List.cons.inj heq).2
        exact (List.cons.inj htail).2
      cases t with
      | nil => exact absurd rfl hne
      | cons c t =>
          have hc := ht c (by simp)
          rw [Bool.or_eq_true, decide_eq_true_eq, decide_eq_true_eq] at hc
          rcases hc with rfl | rfl
          · exact .inr (.inl rfl)
          · exact .inr (.inr rfl)
  | c :: d :: u =>
      obtain rfl : t = u ++ 10 :: v := by
        have htail := (List.cons.inj heq).2
        exact (List.cons.inj htail).2
      exact absurd (by simp) hmem

/-- What a rule matches is continued in every line feed. -/
def MatchesContinued (charSigned : Bool) (r : Rule) : Prop :=
  ∀ s l k s', Parses (definition charSigned) (rule r) s l (matched k s') →
    ∃ t, Continued t ∧ l = t ++ k

lemma continued_LWS : MatchesContinued charSigned LWS_ := by
  intro s l k s' h
  obtain ⟨m, t, hopt, hplus⟩ := seq_matched (parses_rule.mp h)
  obtain ⟨blanks, hne, hblanks, rfl⟩ := isClass_blank.plus_matched hplus
  rcases opt_matched hopt with hcrlf | rfl
  · exact ⟨crlf ++ blanks, continued_fold hne hblanks, by rw [crlf_matched hcrlf]; rfl⟩
  · refine ⟨blanks, continued_of_not_mem fun hmem => ?_, rfl⟩
    exact absurd (hblanks 10 hmem) (by decide)

/-- A text without control characters has no line feed. -/
lemma continued_of_ctl {q : Byte → Bool} (hq : q 10 = true) {t : Bytes}
    (ht : ∀ c ∈ t, (!q c) = true) : Continued t := by
  refine continued_of_not_mem fun hmem => ?_
  have hc := ht 10 hmem
  rw [hq] at hc
  cases hc

lemma continued_TEXT : MatchesContinued charSigned TEXT_ := by
  intro s l k s' h
  obtain ⟨q, hctl, hq⟩ := @isClass_ctl charSigned
  rcases alt_matched (parses_rule.mp h) with hchar | ⟨t, hlws⟩
  · obtain ⟨c, hc, rfl⟩ := (isClass_octet.diff hctl).taken hchar
    refine ⟨[c], continued_of_ctl hq fun d hd => ?_, rfl⟩
    obtain rfl := List.mem_singleton.mp hd
    exact (Bool.and_eq_true_iff.mp hc).2
  · exact continued_LWS t l k s' hlws

lemma continued_token : MatchesContinued charSigned token_ := by
  intro s l k s' h
  obtain ⟨q, hctl, hq⟩ := @isClass_ctl charSigned
  obtain ⟨sep, hsep⟩ := @isClass_separators charSigned
  have hclass := (isClass_char.diff hctl).diff hsep
  obtain ⟨t, -, ht, rfl⟩ := hclass.plus_matched (parses_rule.mp h)
  refine ⟨t, continued_of_ctl hq fun c hc => ?_, rfl⟩
  exact (Bool.and_eq_true_iff.mp (Bool.and_eq_true_iff.mp (ht c hc)).1).2

lemma continued_quoted_pair : MatchesContinued charSigned quoted_pair_ := by
  intro s l k s' h
  obtain ⟨m, t, hquote, hc⟩ := seq_matched (parses_rule.mp h)
  obtain ⟨b, hb, rfl⟩ := (isClass_ch '\\').taken hquote
  obtain ⟨c, -, rfl⟩ := isClass_char.taken hc
  obtain rfl : b = 92 := of_decide_eq_true hb
  refine ⟨[92, c], fun u v heq => .inl ?_, rfl⟩
  match u with
  | [] => cases heq
  | [d] =>
      obtain rfl := (List.cons.inj heq).1
      rfl
  | d :: e :: u =>
      have hlength := congrArg List.length heq
      simp at hlength

/-- The rules of a header that have no line feed of their own. -/
def headerRule : Rule → Bool
  | OCTET_ | CHAR_ | CTL_ | LF_ | CRLF_ | Chunked_Body_ | chunk_ | chunk_size_p_ | last_chunk_
  | chunk_data_ | trailer_ => false
  | _ => true

lemma headerRule_continued (r : Rule) (hr : headerRule r = true) :
    (definition charSigned r).within (fun p => !p 10) headerRule false = true ∨
      MatchesContinued charSigned r := by
  cases r with
  | TEXT_ => exact .inr continued_TEXT
  | LWS_ => exact .inr continued_LWS
  | token_ => exact .inr continued_token
  | quoted_pair_ => exact .inr continued_quoted_pair
  | UPALPHA_ | LOALPHA_ | DIGIT_ | HEX_ => exact .inl (by cases charSigned <;> rfl)
  | _ => first | exact .inl rfl | cases hr

/-- **In what an entity header matches** every line feed is quoted or begins a continuation. -/
lemma header_continued : MatchesContinued charSigned entity_header_ := by
  intro s l k s' h
  have hclass : ∀ p : Byte → Bool, (!p 10) = true → ∀ c, p c = true → Continued [c] := by
    refine fun p hp c hc => continued_of_not_mem fun hmem => ?_
    obtain rfl := List.mem_singleton.mp hmem
    rw [hc] at hp
    cases hp
  exact h.derives.text (continued_of_not_mem List.not_mem_nil) (fun _ _ => Continued.append) hclass
    headerRule_continued rfl

/-- What a header matches at least. -/
def headerWidth : Rule → ℕ
  | CHAR_ | token_ | field_name_ => 1
  | Allow_ | Content_Encoding_ | Content_Language_ | Content_Length_ | Content_Location_
  | Content_MD5_ | Content_Range_ | Content_Type_ | Expires_ | Last_Modified_ | message_header_
  | extension_header_ | entity_header_ => 2
  | _ => 0

lemma headerWidth_le (r : Rule) : headerWidth r ≤ (definition charSigned r).width headerWidth := by
  cases r <;> first | exact Nat.zero_le _ | exact Nat.le_of_ble_eq_true rfl

/-- An entity header has at least two characters. -/
lemma header_two (h : Parses (definition charSigned) (rule entity_header_) s l (matched k s')) :
    2 + k.length ≤ l.length := h.derives.width_le headerWidth_le

/-! ### The last chunk -/

/-- The rules without actions. -/
def pureRule : Rule → Bool
  | Chunked_Body_ | chunk_ | chunk_size_p_ | chunk_data_ => false
  | _ => true

lemma pureRule_within (r : Rule) (hr : pureRule r = true) :
    (definition charSigned r).within (fun _ => true) pureRule false = true := by
  cases r <;> first | rfl | cases hr

/-- An extension begins with a semicolon. -/
lemma extension_begins
    (h : Parses (definition charSigned) (opt (rule chunk_extension_)) s l (matched k s')) :
    k = l ∨ l.head? = some 59 := by
  rcases opt_matched h with hext | rfl
  · rcases many_first (parses_rule.mp hext) with rfl | ⟨m, t, hfirst⟩
    · exact .inl rfl
    · obtain ⟨m', t', hsemicolon, -⟩ := seq_matched hfirst
      obtain ⟨c, hc, rfl⟩ := (isClass_ch ';').taken hsemicolon
      obtain rfl : c = 59 := of_decide_eq_true hc
      exact .inr rfl
  · exact .inl rfl

/-- The action of the size is `dehex`. -/
lemma assign_a_eq (chunk_size_ : ℕ) (text : Bytes) : assign_a chunk_size_ text = dehex text := by
  change ((dehex text).map _).map _ = _
  cases dehex text <;> rfl

/-- A size, in front of something else. -/
lemma parses_size {size : Bytes} (hne : size ≠ []) (hex : IsHex size) {n : ℕ}
    (hn : dehex size = .ok n) (hk : ∀ c ∈ k.head?, isxdigit c = false) (s : ℕ) :
    Parses (definition charSigned) (rule chunk_size_p_) s (size ++ k) (matched k n) := by
  refine parses_rule.mpr ((isClass_hex.plus hne hex hk s).act ?_)
  rw [assign_a_eq]
  exact hn

lemma numeral_zeros {zeros : Bytes} (h : ∀ c ∈ zeros, c = 48) : numeral zeros = 0 := by
  induction zeros using List.reverseRecOn with
  | nil => rfl
  | append_singleton zeros c ih =>
      rw [numeral_append_singleton, ih fun d hd => h d (by simp [hd]), h c (by simp)]
      rfl

/-- Zeros are read as zero. -/
lemma dehex_zeros {zeros : Bytes} (h : ∀ c ∈ zeros, c = 48) :
    IsHex zeros ∧ dehex zeros = .ok 0 := by
  have hex : IsHex zeros := fun c hc => by
    rw [h c hc]
    rfl
  have hA : 65 ∉ zeros := fun hmem => absurd (h 65 hmem) (by decide)
  have hvalue := numeral_zeros h
  exact ⟨hex, by rw [dehex_of_not_mem hex hA (by rw [hvalue]; norm_num), hvalue]⟩

/-- **What `last_chunk_` matches** in front of an empty line, `chunk_` matches with it. -/
theorem chunk_of_last_chunk
    (h : Parses (definition charSigned) (rule last_chunk_) s l (matched (crlf ++ k) s')) (t : ℕ) :
    Parses (definition charSigned) (rule chunk_) t l (matched k 0) := by
  obtain ⟨m, t₁, hzeros, h⟩ := seq_matched (parses_rule.mp h)
  obtain ⟨m', t₂, hext, hcrlf⟩ := seq_matched h
  obtain ⟨zeros, hne, hzero, rfl⟩ := (isClass_ch '0').plus_matched hzeros
  obtain rfl := crlf_matched hcrlf
  have hbehind : ∀ c ∈ m.head?, isxdigit c = false := by
    intro c hc
    rcases extension_begins hext with rfl | hsemicolon
    · obtain rfl := Option.some.inj hc
      rfl
    · obtain rfl := Option.some.inj (hsemicolon.symm.trans hc)
      rfl
  obtain ⟨hex, hdehex⟩ := dehex_zeros fun c hc => of_decide_eq_true (hzero c hc)
  -- the extension is read without actions, in whatever state
  have hext' := hext.withState pureRule_within (e := opt (rule chunk_extension_)) rfl 0
  refine parses_rule.mpr ((parses_size hne hex hdehex hbehind t).seq (hext'.seq
    ((parses_crlf 0 _).seq (Parses.seq ?_ (parses_crlf 0 k)))))
  exact parses_rule.mpr (parses_counted.mpr Parses.eps)

/-! ### No body is matched in full -/

/-- A text that ends with the last chunk of a body and its trailer, at the beginning of a line. -/
def EndsBody (text : Bytes) : Prop :=
  ∃ front, text = front ++ 48 :: (crlf ++ crlf) ∧
    (front = [] ∨ ∃ before, front = before ++ [13, 10])

lemma endsBody_encodeChunked (chunks : List Chunk) : EndsBody (encodeChunked chunks) := by
  refine ⟨chunks.flatMap fun c => encodeChunk c.size c.data, rfl, ?_⟩
  rcases List.eq_nil_or_concat chunks with rfl | ⟨front, c, rfl⟩
  · exact .inl rfl
  · rw [List.concat_eq_append, List.flatMap_append, List.flatMap_singleton, encodeChunk,
      ← List.append_assoc]
    exact .inr ⟨_, rfl⟩

/-- No entity header ends where the zero of the last chunk does. -/
lemma no_header (htext : EndsBody l) {m : Bytes} (hm : m <:+ l) (s s' : ℕ) :
    ¬ Parses (definition charSigned) (rule entity_header_) s m (matched (crlf ++ crlf) s') := by
  intro h
  obtain ⟨t, ht, rfl⟩ := header_continued s m _ s' h
  have htwo : 2 ≤ t.length := by
    have hwidth := header_two h
    simp only [List.length_append] at hwidth
    omega
  obtain ⟨u, hu⟩ := hm
  obtain ⟨front, rfl, hfront⟩ := htext
  have hzero : u ++ t = front ++ [48] := by
    rw [← List.append_assoc, List.append_cons] at hu
    exact List.append_cancel_right hu
  rcases hfront with rfl | ⟨before, rfl⟩
  · have hlength := congrArg List.length hzero
    rw [List.length_append] at hlength
    change _ = 1 at hlength
    omega
  · -- the header would end with a line feed and the zero
    have hlonger : [10, 48] <:+ t := by
      have hend : [10, 48] <:+ u ++ t := ⟨before ++ [13], by rw [hzero]; simp⟩
      exact List.suffix_of_suffix_length_le hend (List.suffix_append u t) htwo
    obtain ⟨t', rfl⟩ := hlonger
    rcases ht t' [48] rfl with hquote | hblank | hblank
    · have hcr : u ++ t' = before ++ [13] := by
        have hsplit : (u ++ t') ++ [10, 48] = (before ++ [13]) ++ [10, 48] := by
          rw [List.append_assoc, hzero]
          simp
        exact List.append_cancel_right hsplit
      have hlast := congrArg List.getLast? hcr
      rw [List.getLast?_append, hquote, List.getLast?_concat] at hlast
      cases hlast
    · cases hblank
    · cases hblank

/-- **No text that ends so is matched in full.** -/
theorem not_matched_of_endsBody (htext : EndsBody l) (chunk_size_ : ℕ) :
    ¬ MatchedInFull charSigned chunk_size_ l := by
  rintro ⟨s, h⟩
  obtain ⟨l₁, t₁, hchunks, h⟩ := seq_matched (parses_rule.mp h)
  obtain ⟨l₂, t₂, hlast, h⟩ := seq_matched h
  obtain ⟨l₃, t₃, htrailer, hcrlf⟩ := seq_matched h
  obtain rfl : l₃ = crlf := (crlf_matched hcrlf).trans (List.append_nil crlf)
  rcases many_last (parses_rule.mp htrailer) with rfl | ⟨t, m, t', hm, hheader⟩
  · -- the chunks went on where they have stopped
    obtain ⟨t, hstop⟩ := many_matched hchunks
    have hchunk := chunk_of_last_chunk (k := []) hlast t
    cases hstop.unique hchunk
  · obtain ⟨m', u, hentity, hend⟩ := seq_matched hheader
    obtain rfl := crlf_matched hend
    exact no_header htext (hm.trans (hlast.suffix.trans hchunks.suffix)) t u hentity

/-- **No chunked body is matched in full.** -/
theorem not_matchedInFull (charSigned : Bool) (chunk_size_ : ℕ) (chunks : List Chunk) :
    ¬ MatchedInFull charSigned chunk_size_ (encodeChunked chunks) :=
  not_matched_of_endsBody (endsBody_encodeChunked chunks) chunk_size_

/-! ### What the chunks match -/

/-- A chunk whose size is read as what it is, with data that are octets for `OCTET_`. -/
def Readable (charSigned : Bool) (size data : Bytes) : Prop :=
  dehex size = .ok data.length ∧ ∀ c ∈ data, inRange charSigned 0 255 c = true

/-- A size without an `A` is read as what it is. -/
lemma Chunk.readable (c : Chunk) (hA : 65 ∉ c.size)
    (hdata : ∀ d ∈ c.data, inRange charSigned 0 255 d = true) :
    Readable charSigned c.size c.data := by
  have hfits : numeral c.size < 2 ^ 64 := by
    rw [c.numeral_eq]
    exact c.short.trans (by norm_num)
  exact ⟨c.numeral_eq ▸ dehex_of_not_mem c.hex hA hfits, hdata⟩

lemma Chunk.size_ne_nil (c : Chunk) : c.size ≠ [] := by
  intro hnil
  have hlength := c.numeral_eq
  rw [hnil] at hlength
  exact c.nonempty (List.length_eq_zero_iff.mp hlength.symm)

/-- A chunk is matched. -/
lemma parses_chunk {size data : Bytes} (hne : size ≠ []) (hex : IsHex size)
    (hread : Readable charSigned size data) (s : ℕ) (k : Bytes) :
    Parses (definition charSigned) (rule chunk_) s (encodeChunk size data ++ k)
      (matched k data.length) := by
  obtain ⟨hsize, hdata⟩ := hread
  have hcr : ∀ c ∈ (crlf ++ (data ++ (crlf ++ k))).head?, c = 13 := fun c hc =>
    (Option.some.inj hc).symm
  have hdigits : ∀ c ∈ (crlf ++ (data ++ (crlf ++ k))).head?, isxdigit c = false := fun c hc => by
    rw [hcr c hc]
    rfl
  -- there is no extension, since there is no semicolon
  have hnone : Parses (definition charSigned) (opt (rule chunk_extension_)) data.length
      (crlf ++ (data ++ (crlf ++ k))) (matched (crlf ++ (data ++ (crlf ++ k))) data.length) := by
    refine Parses.alt_left (parses_rule.mpr (Parses.many_stop (Parses.seq_failed ?_)))
    refine (isClass_ch ';').fails (fun c hc => ?_) data.length
    rw [hcr c hc]
    rfl
  have hdata' : Parses (definition charSigned) (rule chunk_data_) data.length
      (data ++ (crlf ++ k)) (matched (crlf ++ k) data.length) :=
    parses_rule.mpr (parses_counted.mpr (isClass_octet.times hdata data.length (crlf ++ k)))
  have hchunk := (parses_size hne hex hsize hdigits s).seq (hnone.seq
    ((parses_crlf data.length _).seq (hdata'.seq (parses_crlf data.length k))))
  rw [encodeChunk]
  simp only [List.append_assoc]
  exact parses_rule.mpr hchunk

/-- **The chunks are matched with the last one among them**, if they can be read. -/
theorem chunks_matched (chunks : List Chunk)
    (hread : ∀ c ∈ chunks, Readable charSigned c.size c.data) (s : ℕ) :
    Parses (definition charSigned) (many (rule chunk_)) s (encodeChunked chunks)
      (matched [] 0) := by
  induction chunks generalizing s with
  | nil =>
      have hlast : Parses (definition charSigned) (rule chunk_) s
          (encodeChunk (bytes "0") [] ++ []) (matched [] 0) :=
        parses_chunk (by decide) (by decide) ⟨by decide, by simp⟩ s []
      have hend : Parses (definition charSigned) (rule chunk_) 0 [] (failed 0) := by
        refine parses_rule.mpr (Parses.seq_failed (parses_rule.mpr (Parses.act_failed ?_)))
        exact (isClass_hex.fails (fun c hc => by cases hc) 0).seq_failed
      exact hlast.many_next hend.many_stop
  | cons c chunks ih =>
      have hchunk := parses_chunk c.size_ne_nil c.hex (hread c (by simp)) s
        (encodeChunked chunks)
      rw [encodeChunked, List.flatMap_cons, List.append_assoc]
      exact hchunk.many_next (ih (fun d hd => hread d (by simp [hd])) c.data.length)

/-- So there is nothing left for `last_chunk_`. -/
theorem chunked_fails (chunks : List Chunk)
    (hread : ∀ c ∈ chunks, Readable charSigned c.size c.data) (s : ℕ) :
    Parses (definition charSigned) (rule Chunked_Body_) s (encodeChunked chunks) (failed 0) := by
  refine parses_rule.mpr ((chunks_matched chunks hread s).seq (Parses.seq_failed ?_))
  refine parses_rule.mpr (Parses.seq_failed (Parses.seq_failed ?_))
  exact (isClass_ch '0').fails (fun c hc => by cases hc) 0

/-- A body of one chunk. -/
def hello : Chunk where
  size := bytes "5"
  data := bytes "hello"
  hex := by decide
  numeral_eq := by decide
  nonempty := by decide
  short := by decide

/-- **A body of one chunk is not matched**: the last chunk is taken for one of the chunks. -/
theorem hello_not_matched :
    Parses (definition true) (rule Chunked_Body_) 0 (bytes "5\r\nhello\r\n0\r\n\r\n") (failed 0) ∧
    ¬ ∀ charSigned chunk_size_ chunks,
      MatchedInFull charSigned chunk_size_ (encodeChunked chunks) := by
  have hread : ∀ c ∈ [hello], Readable true c.size c.data := by
    intro c hc
    obtain rfl := List.mem_singleton.mp hc
    exact hello.readable (by decide) (by decide)
  have hfails := chunked_fails [hello] hread 0
  refine ⟨hfails, fun hall => ?_⟩
  obtain ⟨s, hmatched⟩ := hall true 0 [hello]
  cases hfails.unique hmatched

end Arachnida.Spin.Private
