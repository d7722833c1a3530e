import Arachnida.Damon.Reading

/-!
Whether `getResponse` makes progress when it retries.

* `Peer.counted`: a peer that counts its reads; `getResponsePass_counted`: the call does the same.
* `ReadsBetween`: between two executions of `goto retry` there is a read.
* `Whole`: the buffers in which a call looks for a status line are not empty, and where there is
  one, the headers behind it are complete or refused.
* `progress_iff`: **a call makes progress, and ends where it should, exactly if its buffers are
  whole.**
-/

namespace Arachnida.Damon

open Library Acari

variable {E : Type*}

/-! ### Counting reads -/

/-- A peer that counts its reads. -/
def Peer.counted (P : Peer E) : Peer (E × ℕ) where
  read := fun e => ((P.read e.1).1, (P.read e.1).2, e.2 + 1)
  poll := fun e => ((P.poll e.1).1, (P.poll e.1).2, e.2)

variable {P : Peer E}

lemma readInto_counted (b : Bytes) (e : E) (n : ℕ) : readInto P.counted b (e, n)
    = ((readInto P b e).1, (readInto P b e).2, n + 1) := by
  simp only [readInto, Peer.counted]
  cases P.read e with
  | mk d e' =>
      cases d with
      | error x => rfl
      | ok d =>
          dsimp only
          split_ifs <;> rfl

/-- How often a pass reads that looks for a status line. -/
def reads (P : Peer E) (retrying eob : Bool) (b : Bytes) (e : E) : ℕ :=
  if retrying || eob || b = [] || (P.poll e).1 then 1 else 0

lemma fillBuffer_counted (retrying eob : Bool) (b : Bytes) (e : E) (n : ℕ) :
    fillBuffer P.counted retrying eob b (e, n)
      = ((fillBuffer P retrying eob b e).1, (fillBuffer P retrying eob b e).2,
          n + reads P retrying eob b e) := by
  have hpoll : P.counted.poll (e, n) = ((P.poll e).1, (P.poll e).2, n) := rfl
  cases hforced : (retrying || eob || b = [] : Bool) <;> cases hp : (P.poll e).1 <;>
    simp [fillBuffer, reads, hforced, hpoll, hp, readInto_counted]

lemma fillBuffer_uncounted {retrying eob : Bool} {b : Bytes} {x : E × ℕ}
    {filled : Except Exception Bytes} {x' : E × ℕ}
    (h : fillBuffer P.counted retrying eob b x = (filled, x')) :
    fillBuffer P retrying eob b x.1 = (filled, x'.1) ∧ x'.2 = x.2 + reads P retrying eob b x.1 := by
  obtain ⟨e, n⟩ := x
  rw [fillBuffer_counted] at h
  obtain rfl := congrArg Prod.fst h
  obtain rfl := congrArg Prod.snd h
  exact ⟨rfl, rfl⟩

lemma exists_counted {retrying eob : Bool} {b : Bytes} {x : E × ℕ}
    {filled : Except Exception Bytes} {e' : E}
    (h : fillBuffer P retrying eob b x.1 = (filled, e')) :
    ∃ n, fillBuffer P.counted retrying eob b x = (filled, e', n) := by
  have hcounted := fillBuffer_counted (P := P) retrying eob b x.1 x.2
  rw [h] at hcounted
  exact ⟨_, hcounted⟩

/-! ### Progress -/

/-- The passes of a call, each followed by a `goto retry`. -/
def Retries (P : Peer E) : CallState E → CallState E → Prop :=
  Relation.ReflTransGen fun s s' => getResponsePass P s = .inl s'

/-- Between two successive executions of `goto retry` there is a read. -/
def ReadsBetween (P : Peer E) (a : Attribute) (peer : E) : Prop :=
  ∀ s s' s'', Retries P.counted ⟨a, false, peer, 0⟩ s →
    getResponsePass P.counted s = .inl s' → getResponsePass P.counted s' = .inl s'' →
      s'.peer.2 < s''.peer.2

/-- Each read brings a byte at least. -/
def EachReadBrings (P : Peer E) (peer : E) : Prop :=
  ∀ e, Reaches P peer e → ∀ data reason e', P.read e = (.ok (data, reason), e') → data ≠ []

/-- The buffer of a call that goes on reading. -/
inductive Receives (P : Peer E) : Bool → Bool → Bytes → E → Bytes → Prop
  | now {retrying eob : Bool} {b B : Bytes} {peer peer' : E}
      (h : fillBuffer P retrying eob b peer = (.ok B, peer')) : Receives P retrying eob b peer B
  | later {retrying eob : Bool} {b B B' : Bytes} {peer peer' : E}
      (h : fillBuffer P retrying eob b peer = (.ok B, peer'))
      (hlater : Receives P true false B peer' B') : Receives P retrying eob b peer B'

/-- A status line and the whole of the headers behind it. -/
def HeaderBlock (B : Bytes) : Prop :=
  ∃ first w m v eob, extractResponse B = .ok (some first, w) ∧
    (headerLoop Response.push).run ⟨first, w, false⟩ = .ok (⟨m, v, true⟩, eob)

/-- The buffer holds a complete header block at some time. -/
def Receives.Headers (P : Peer E) (a : Attribute) (peer : E) : Prop :=
  ∃ b eob B, Begins a b eob ∧ Receives P false eob b peer B ∧ HeaderBlock B

/-- A read between any two retries, and an end of the call where there is a header block to be
found. -/
structure Progresses (P : Peer E) (a : Attribute) (peer : E) : Prop where
  reads : ReadsBetween P a peer
  ends : EachReadBrings P peer → Receives.Headers P a peer → ∃ r, GetResponse P a peer r

/-- The buffer is not empty, and it does not end inside the headers. -/
def Whole (B : Bytes) : Prop :=
  B ≠ [] ∧ ∀ first w m v eob, extractResponse B = .ok (some first, w) →
    (headerLoop Response.push).run ⟨first, w, false⟩ ≠ .ok (⟨m, v, false⟩, eob)

/-- Every buffer is whole in which a call looks for a status line. -/
def LooksWhole (P : Peer E) (a : Attribute) (peer : E) : Prop :=
  ∀ b eob B peer', Begins a b eob → Looks P false eob b peer B peer' → Whole B

/-- A buffer without a status line is whole. -/
lemma whole_of_noLine {B : Bytes} (hB : B ≠ []) (hline : extractResponse B = .ok (none, B)) :
    Whole B := by
  refine ⟨hB, fun first w m v eob hfirst => ?_⟩
  rw [hline] at hfirst
  cases hfirst

variable {a : Attribute} {peer : E}

/-! ### Whole buffers are enough -/

/-- What the retries of a call keep: the buffers to come are whole. -/
def StillWhole (P : Peer E) (s : CallState (E × ℕ)) : Prop :=
  ∃ b eob, Begins s.connection_attribute b eob ∧
    ∀ B e, Looks P s.retrying eob b s.peer.1 B e → Whole B

lemma StillWhole.step {s s' : CallState (E × ℕ)} (h : StillWhole P s)
    (hpass : getResponsePass P.counted s = .inl s') : StillWhole P s' ∧ s'.retrying = true ∧
      ∃ b eob, Begins s.connection_attribute b eob ∧
        s'.peer.2 = s.peer.2 + reads P s.retrying eob b s.peer.1 := by
  obtain ⟨b, eob, hb, hwhole⟩ := h
  have hout := getResponsePass_outcome (P := P.counted) hb
  rw [hpass] at hout
  cases hout with
  | @noLine B peer' hfill hline =>
      obtain ⟨hfill, hcount⟩ := fillBuffer_uncounted hfill
      have hB := (hwhole B _ (.now hfill)).1
      exact ⟨⟨B, false, .four hB false, fun B' e h => hwhole B' e (.later hfill hline h)⟩, rfl,
        b, eob, hb, hcount⟩
  | inHeaders hfill hline hrun =>
      exact absurd hrun ((hwhole _ _ (.now (fillBuffer_uncounted hfill).1)).2 _ _ _ _ _ hline)

lemma readsBetween_of_whole (ha : a.Left) (h : LooksWhole P a peer) : ReadsBetween P a peer := by
  intro s s' s'' hs hpass hpass'
  obtain ⟨response, b, found, rfl⟩ | ⟨b, eob, hbegins⟩ := ha
  · -- the call ends at its cast
    obtain rfl | ⟨t, ht, -⟩ := Relation.ReflTransGen.cases_head hs
    · cases hpass
    · cases ht
  · have hstart : StillWhole P ⟨a, false, peer, 0⟩ :=
      ⟨b, eob, hbegins, fun B e => h b eob B e hbegins⟩
    have hwhole : StillWhole P s := by
      clear hpass
      induction hs with
      | refl => exact hstart
      | tail _ hstep ih => exact (ih.step hstep).1
    obtain ⟨hwhole', hretrying, -⟩ := hwhole.step hpass
    obtain ⟨-, -, b', eob', -, hcount⟩ := hwhole'.step hpass'
    rw [hcount, reads, hretrying]
    simp

/-- Where the buffers are whole, a call ends at the header block. -/
lemma returns_of_receives {retrying eob : Bool} {b B : Bytes} {e : E}
    (hreceives : Receives P retrying eob b e B) (hB : HeaderBlock B) : ∀ s : CallState E,
      Begins s.connection_attribute b eob → s.retrying = retrying → s.peer = e →
      (∀ B e', Looks P retrying eob b e B e' → Whole B) →
        ∃ r, Returns (getResponsePass P) s r := by
  induction hreceives with
  | now hfill =>
      rintro s hb rfl rfl -
      obtain ⟨first, w, m, v, eob', hline, hrun⟩ := hB
      exact ⟨_, returns_of_inr (hb.pass_line hfill hline hrun)⟩
  | @later _ _ _ B₁ _ _ e₁ hfill _ ih =>
      rintro s hb rfl rfl hwhole
      have hout := getResponsePass_outcome (P := P) hb
      generalize hpass : getResponsePass P s = next at hout
      cases hout with
      | threw => exact ⟨_, returns_of_inr hpass⟩
      | badLine => exact ⟨_, returns_of_inr hpass⟩
      | badHeader => exact ⟨_, returns_of_inr hpass⟩
      | headers => exact ⟨_, returns_of_inr hpass⟩
      | noLine hfill' hline =>
          cases hfill.symm.trans hfill'
          have hne := (hwhole B₁ e₁ (.now hfill)).1
          obtain ⟨r, hr⟩ := ih hB ⟨.four none B₁ false false, true, e₁⟩ (.four hne false) rfl rfl
            fun B' e' h => hwhole B' e' (.later hfill hline h)
          exact ⟨r, returns_of_inl hpass hr⟩
      | inHeaders hfill' hline hrun =>
          exact absurd hrun ((hwhole _ _ (.now hfill')).2 _ _ _ _ _ hline)

/-! ### Other buffers are not -/

/-- A pass that comes back to itself has read nothing. -/
lemma ReadsBetween.not_stuck (h : ReadsBetween P a peer) {s s' : CallState (E × ℕ)}
    (hs : Retries P.counted ⟨a, false, peer, 0⟩ s) (hpass : getResponsePass P.counted s = .inl s') :
    getResponsePass P.counted s' ≠ .inl s' :=
  fun hstuck => lt_irrefl _ (h s s' s' hs hpass hstuck)

lemma ReadsBetween.whole (h : ReadsBetween P a peer) {retrying eob : Bool} {b B : Bytes} {e e' : E}
    (hlooks : Looks P retrying eob b e B e') : ∀ s : CallState (E × ℕ),
      Retries P.counted ⟨a, false, peer, 0⟩ s → Begins s.connection_attribute b eob →
      s.retrying = retrying → s.peer.1 = e → Whole B := by
  have hnothing : ∀ {s : CallState (E × ℕ)} {b B : Bytes} {eob : Bool} {e' : E},
      Retries P.counted ⟨a, false, peer, 0⟩ s → Begins s.connection_attribute b eob →
      fillBuffer P s.retrying eob b s.peer.1 = (.ok B, e') → B ≠ [] := by
    rintro s b _ eob e' hs hb hfill rfl
    obtain ⟨n, hfill⟩ := exists_counted hfill
    exact h.not_stuck hs (hb.pass_noLine hfill rfl) (getResponsePass_nothing false (e', n))
  induction hlooks with
  | now hfill =>
      rintro s hs hb rfl rfl
      refine ⟨hnothing hs hb hfill, fun first w m v eob' hline hrun => ?_⟩
      obtain ⟨n, hfill⟩ := exists_counted hfill
      obtain ⟨rfl, -⟩ := headerLoop_settled Response.push hrun rfl
      exact h.not_stuck hs (hb.pass_line hfill hline hrun) (getResponsePass_inHeaders hrun (_, n))
  | later hfill hline _ ih =>
      rintro s hs hb rfl rfl
      have hne := hnothing hs hb hfill
      obtain ⟨n, hfill⟩ := exists_counted hfill
      exact ih _ (hs.tail (hb.pass_noLine hfill hline)) (.four hne false) rfl rfl

/-- **A call makes progress** if and only if the buffers in which it looks for a status line are
whole. -/
theorem progress_iff {E' : Type*} {P' : Peer E'} (ha : Stored P' a) :
    Progresses P a peer ↔ LooksWhole P a peer := by
  constructor
  · intro h b eob B peer' hbegins hlooks
    exact h.reads.whole hlooks _ .refl hbegins rfl rfl
  · intro h
    refine ⟨readsBetween_of_whole ha.left h, fun _ ⟨b, eob, B, hbegins, hreceives, hB⟩ => ?_⟩
    exact returns_of_receives hreceives hB _ hbegins rfl rfl fun B e hlooks =>
      h b eob B e hbegins hlooks

/-- The call before has left `HTTP`, and the status line comes in two more reads. -/
def cutLine : List (Bytes × ℕ) := [(bytes "/1.1 200", 1), (bytes " OK\r\nA: b\r\n\r\n", 1)]

lemma stored_http : Stored (scripted false) (.four none (bytes "HTTP") false false) := by
  have hcall : GetResponse (scripted false) .empty
      [(bytes "HTTP/1.1 200 OK\r\nContent-Length: 0\r\n\r\nHTTP", 1)]
      ⟨.ok ⟨bytes "HTTP/1.1", 200, bytes "OK", [⟨bytes "Content-Length", bytes "0"⟩], []⟩,
        .four none (bytes "HTTP") false false, []⟩ := returns_of_inr (by decide +kernel)
  exact .call .empty hcall

/-- The call looks for a status line three times, and ends. -/
theorem progress_cutLine :
    Progresses (scripted false) (.four none (bytes "HTTP") false false) cutLine := by
  refine (progress_iff stored_http).mpr fun b eob B peer' hbegins hlooks => ?_
  have hhttp : extractResponse (bytes "HTTP") = .ok (none, bytes "HTTP") := by decide +kernel
  have hcode : extractResponse (bytes "HTTP/1.1 200") = .ok (none, bytes "HTTP/1.1 200") := by
    decide +kernel
  have hheaders : extractResponse (bytes "HTTP/1.1 200 OK\r\nA: b\r\n\r\n")
      = .ok (some (.new (bytes "HTTP/1.1") 200 (bytes "OK")), bytes "\r\nA: b\r\n\r\n") := by
    decide +kernel
  have hrun : (headerLoop Response.push).run
      ⟨.new (bytes "HTTP/1.1") 200 (bytes "OK"), bytes "\r\nA: b\r\n\r\n", false⟩
        = .ok (⟨⟨bytes "HTTP/1.1", 200, bytes "OK", [⟨bytes "A", bytes "b"⟩], []⟩, [], true⟩,
            false) := by
    decide +kernel
  cases hbegins with
  | four _ _ =>
      obtain rfl | ⟨-, hlooks⟩ := hlooks.of_fill rfl
      · exact whole_of_noLine (by decide) hhttp
      obtain rfl | ⟨-, hlooks⟩ := hlooks.of_fill rfl
      · exact whole_of_noLine (by decide) hcode
      obtain rfl | ⟨hline, -⟩ := hlooks.of_fill rfl
      · refine ⟨by decide, fun first w m v eob hfirst hinside => ?_⟩
        obtain ⟨⟨⟩, ⟨⟩⟩ := Prod.mk.inj (Except.ok.inj (hheaders.symm.trans hfirst))
        cases hrun.symm.trans hinside
      · cases hheaders.symm.trans hline

/-- **A read that ends inside the headers**: from then on the call retries without reading. -/
theorem no_progress : ¬ ∀ (P : Peer (List (Bytes × ℕ))) (a : Attribute) (peer : List (Bytes × ℕ)),
    Stored P a → Progresses P a peer := by
  intro h
  have hpass : getResponsePass (scripted false).counted
      ⟨.empty, false, [(bytes "HTTP/1.1 200 OK\r\nA", 1), (bytes ": b\r\n\r\n", 1)], 0⟩
        = .inl ⟨.four (some (.new (bytes "HTTP/1.1") 200 (bytes "OK"))) (bytes "A") false true,
          true,
          [(bytes ": b\r\n\r\n", 1)], 1⟩ := by decide +kernel
  exact (h _ _ _ .empty).reads.not_stuck .refl hpass (by decide +kernel)

end Arachnida.Damon
