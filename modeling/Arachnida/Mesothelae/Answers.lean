import Arachnida.Mesothelae.Server
import Arachnida.Spin.Segmentation

/-!
What the server `Mesothelae` writes.

* `perform`, `transcript`: what is written for the deeds of one request, and for the requests of a
  connection, up to the one that closes it.
* `WritesWhole`: the condition on a step that the BIO of a connection takes all that is written.
* `Serving`: the invariant of one connection.
* `transcript_traced`: **at every time, what has been written and what is still under way are the
  transcript of the data of the connection**, whatever the other connections do.
* `written_of_bytes`: when nothing is under way, **the bytes that were written depend on the bytes
  that were read only**, not on how they were cut nor on the other connections.
-/

namespace Arachnida.Mesothelae

open Library Acari Spin

/-! ### Transcripts -/

/-- What deeds write on a connection with or without a BIO, and whether it has one behind them; a
write without one ends them. -/
def perform : Bool → List Deed → Bytes × Bool
  | usable, [] => ([], usable)
  | true, .write data :: deeds => (data ++ (perform true deeds).1, (perform true deeds).2)
  | false, .write _ :: _ => ([], false)
  | _, .close :: deeds => perform false deeds

/-- What the answers to requests write. -/
def transcript : Bool → List Spin.Request → Bytes × Bool
  | usable, [] => ([], usable)
  | usable, r :: rs =>
      ((perform usable (respond r)).1 ++ (transcript (perform usable (respond r)).2 rs).1,
        (transcript (perform usable (respond r)).2 rs).2)

lemma transcript_append (usable : Bool) (rs rs' : List Spin.Request) :
    transcript usable (rs ++ rs')
      = ((transcript usable rs).1 ++ (transcript (transcript usable rs).2 rs').1,
        (transcript (transcript usable rs).2 rs').2) := by
  induction rs generalizing usable with
  | nil => rfl
  | cons r rs ih => simp [transcript, ih]

lemma perform_close (usable : Bool) (deeds : List Deed) :
    perform usable (.close :: deeds) = perform false deeds := by
  cases usable <;> rfl

/-- A write that the BIO takes as a whole returns. -/
lemma returned_of_whole {data : Bytes} {result : WriteResult data.length}
    (hvalue : result.value = data.length) (hassert : Spin.write data result ≠ .threw .assertion) :
    ∃ n reason, Spin.write data result = .returned n reason := by
  by_cases hsize : intMax ≤ data.length
  · exact absurd (by rw [Spin.write, if_pos hsize]) hassert
  · by_cases hdata : data = []
    · exact ⟨0, Damon.Reason.no_error__.value, by rw [Spin.write, if_neg hsize, if_neg (by simpa)]⟩
    · exact ⟨_, _, write_of_full hdata (not_le.mp hsize) hvalue⟩

/-! ### One connection -/

variable {γ : Type*} [DecidableEq γ]

/-- What `main` has still to do with a connection. -/
def Main.deeds (m : Main γ) (c : γ) : List Deed :=
  match m with
  | .answering c' deeds => if c' = c then deeds else []
  | _ => []

/-- The request of a connection that `main` has just got. -/
def Main.gotten (m : Main γ) (c : γ) : List Spin.Request :=
  match m with
  | .got c' r => if c' = c then [r] else []
  | _ => []

@[simp]
lemma deeds_waiting (c : γ) : (Main.waiting : Main γ).deeds c = [] := rfl

@[simp]
lemma deeds_got (c c' : γ) (r : Spin.Request) : (Main.got c' r).deeds c = [] := rfl

@[simp]
lemma deeds_answering (c c' : γ) (deeds : List Deed) :
    (Main.answering c' deeds).deeds c = if c' = c then deeds else [] := rfl

@[simp]
lemma gotten_waiting (c : γ) : (Main.waiting : Main γ).gotten c = [] := rfl

@[simp]
lemma gotten_got (c c' : γ) (r : Spin.Request) :
    (Main.got c' r).gotten c = if c' = c then [r] else [] := rfl

@[simp]
lemma gotten_answering (c c' : γ) (deeds : List Deed) :
    (Main.answering c' deeds).gotten c = [] := rfl

/-- The BIO of the connection takes all of what is written to it. -/
def WritesWhole (c : γ) (s : Server γ) (a : Action γ) : Prop :=
  ∀ deeds data result, s.main = .answering c (.write data :: deeds) → a = .write data result →
    result.value = data.length

/-- The requests of a connection that have not been answered. -/
def Server.underWay (s : Server γ) (c : γ) : List Spin.Request :=
  s.main.gotten c ++ ofConnection c s.requests_ ++ s.worker.inHand c

/-- What holds of a connection. -/
structure Serving (c : γ) (s : Server γ) : Prop where
  listed : c ∈ s.connections_ → s.accepted c = true
  unaccepted : s.accepted c = false → (s.connection c).answered = [] ∧ s.main.gotten c = [] ∧
    s.main.deeds c = []
  /-- While the connection is there, all that `main` has got of it is answered in turn. -/
  inOrder : c ∈ s.connections_ → ofConnection c s.taken
    = (s.connection c).answered ++ s.main.gotten c
  written : transcript true (s.connection c).answered
    = ((s.connection c).written ++ (perform (s.connection c).usable (s.main.deeds c)).1,
      (perform (s.connection c).usable (s.main.deeds c)).2)

variable {s s' : Server γ} {a : Action γ} {as : List (Action γ)} {c : γ}

lemma serving_init (c : γ) : Serving c (Server.init : Server γ) where
  listed := fun h => by cases h
  unaccepted := fun _ => ⟨rfl, rfl, rfl⟩
  inOrder := fun h => by cases h
  written := rfl

/-- What has been answered on a connection, and how. -/
def ConnectionState.SameAnswers (x x' : ConnectionState) : Prop :=
  x'.answered = x.answered ∧ x'.written = x.written ∧ x'.usable = x.usable

lemma sameAnswers_set {c' : γ} {x : ConnectionState} (h : (s.connection c').SameAnswers x) :
    (s.connection c).SameAnswers ((s.set c' x).connection c) := by
  rcases eq_or_ne c c' with rfl | hne
  · simpa using h
  · rw [set_connection_of_ne hne]
    exact ⟨rfl, rfl, rfl⟩

/-- A step that answers nothing on the connection. -/
lemma Serving.frame (h : Serving c s) (hlisted : c ∈ s'.connections_ → c ∈ s.connections_)
    (haccepted : s'.accepted = s.accepted) (htaken : s'.taken = s.taken)
    (hmain : s'.main.gotten c = s.main.gotten c ∧ s'.main.deeds c = s.main.deeds c)
    (hsame : (s.connection c).SameAnswers (s'.connection c)) : Serving c s' := by
  obtain ⟨hanswered, hwritten, husable⟩ := hsame
  obtain ⟨hgotten, hdeeds⟩ := hmain
  constructor
  · intro hc
    rw [haccepted]
    exact h.listed (hlisted hc)
  · intro hc
    rw [hanswered, hgotten, hdeeds]
    exact h.unaccepted (haccepted ▸ hc)
  · intro hc
    rw [hanswered, hgotten, htaken]
    exact h.inOrder (hlisted hc)
  · rw [hanswered, hwritten, husable, hdeeds]
    exact h.written

/-- A step in which `main` goes on with the connection. -/
lemma serving_answer (hc : s.accepted c = true)
    (hlisted : c ∈ s'.connections_ → c ∈ s.connections_) (haccepted : s'.accepted = s.accepted)
    (hinOrder : c ∈ s.connections_ → ofConnection c s'.taken
      = (s'.connection c).answered ++ s'.main.gotten c)
    (hwritten : transcript true (s'.connection c).answered
      = ((s'.connection c).written ++ (perform (s'.connection c).usable (s'.main.deeds c)).1,
        (perform (s'.connection c).usable (s'.main.deeds c)).2)) : Serving c s' where
  listed := fun _ => haccepted ▸ hc
  unaccepted := fun hnot => by
    rw [haccepted, hc] at hnot
    cases hnot
  inOrder := fun hmem => hinOrder (hlisted hmem)
  written := hwritten

/-- What `main` is busy with has been accepted. -/
lemma Serving.accepted_of_deeds (h : Serving c s) (hdeeds : s.main.deeds c ≠ []) :
    s.accepted c = true := by
  by_contra hc
  exact hdeeds (h.unaccepted (by simpa using hc)).2.2

/-- The queue of a sequential `getNextRequest`. -/
lemma front_of_run {α : Type*} {q q' : List α} {r : α}
    (h : requestHandler.run .getNextRequest q = some (some r, q')) : q = r :: q' := by
  cases q with
  | nil => cases h
  | cons first rest =>
      obtain ⟨hfirst, rfl⟩ := Prod.mk.inj (Option.some.inj h)
      rw [Option.some.inj hfirst]

/-- Of a connection that has not been accepted there are no requests. -/
lemma Traced.unaccepted_requests (h : Traced s) (hc : s.accepted c = false) :
    ofConnection c s.taken = [] ∧ ofConnection c s.requests_ = [] := by
  have htraced := h.requests c
  rw [(h.unaccepted c hc).1] at htraced
  simp only [feed, List.append_eq_nil_iff] at htraced
  exact htraced.1

/-- **One step.** -/
lemma Serving.step (h : Serving c s) (ht : Traced s) (hwhole : WritesWhole c s a)
    (hstep : Step s a s') : Serving c s' := by
  cases hstep with
  | @accept c' hworker hnew =>
      rcases eq_or_ne c c' with rfl | hne
      · obtain ⟨hanswered, hgotten, hdeeds⟩ := h.unaccepted hnew
        refine ⟨fun _ => by simp, fun hc => by simp at hc, fun _ => ?_, ?_⟩
        · simp [hanswered, hgotten, (ht.unaccepted_requests hnew).1]
        · simpa using h.written
      · constructor
        · intro hc
          have hbefore : c ∈ s.connections_ := by simpa [hne] using hc
          simpa [hne] using h.listed hbefore
        · intro hc
          simpa [set_connection_of_ne hne] using h.unaccepted (by simpa [hne] using hc)
        · intro hc
          simpa [set_connection_of_ne hne] using h.inOrder (by simpa [hne] using hc)
        · simpa [set_connection_of_ne hne] using h.written
  | dataReady => exact h.frame id rfl rfl ⟨rfl, rfl⟩ (sameAnswers_set ⟨rfl, rfl, rfl⟩)
  | fail => exact h.frame id rfl rfl ⟨rfl, rfl⟩ (sameAnswers_set ⟨rfl, rfl, rfl⟩)
  | hand => exact h.frame id rfl rfl ⟨rfl, rfl⟩ ⟨rfl, rfl, rfl⟩
  | finish => exact h.frame id rfl rfl ⟨rfl, rfl⟩ (sameAnswers_set ⟨rfl, rfl, rfl⟩)
  | drop => exact h.frame List.mem_of_mem_erase rfl rfl ⟨rfl, rfl⟩ ⟨rfl, rfl, rfl⟩
  | @take c' r q hmain hrun =>
      have hfront := front_of_run hrun
      have hwritten := h.written
      have hinOrder := h.inOrder
      simp only [hmain, deeds_waiting, gotten_waiting] at hwritten hinOrder
      refine ⟨h.listed, fun hc => ?_, fun hc => ?_, by simpa using hwritten⟩
      · have hnone := (ht.unaccepted_requests hc).2
        have hne : c' ≠ c := by
          rintro rfl
          simp [hfront, ofConnection] at hnone
        exact ⟨(h.unaccepted hc).1, by simp [hne], rfl⟩
      · simp [hinOrder hc]
  | @lock c' r hmain hlisted =>
      rcases eq_or_ne c' c with rfl | hne
      · have hwritten := h.written
        have hinOrder := h.inOrder
        simp only [hmain, deeds_got, gotten_got, if_true, perform, List.append_nil]
          at hwritten hinOrder
        refine serving_answer (h.listed hlisted) id rfl (fun hc => ?_) ?_
        · simp [hinOrder hc]
        · simp [transcript_append, hwritten, transcript]
      · refine h.frame id rfl rfl (by simp [hmain, hne]) ?_
        simp only [set_connection_of_ne hne.symm]
        exact ⟨rfl, rfl, rfl⟩
  | @lockGone c' r hmain hgone =>
      have hwritten := h.written
      simp only [hmain, deeds_got] at hwritten
      refine ⟨h.listed, fun hc => ⟨(h.unaccepted hc).1, rfl, rfl⟩, fun hc => ?_, hwritten⟩
      have hne : c' ≠ c := by
        rintro rfl
        exact hgone hc
      simpa [hmain, hne] using h.inOrder hc
  | @write c' data deeds result hmain husable hassert =>
      rcases eq_or_ne c' c with rfl | hne
      · have hvalue := hwhole deeds data result hmain rfl
        have htake : data.take result.accepted = data := by
          rw [WriteResult.accepted, hvalue, Int.toNat_natCast, List.take_length]
        obtain ⟨n, reason, hreturned⟩ := returned_of_whole hvalue hassert
        have hwritten := h.written
        have hinOrder := h.inOrder
        simp only [hmain, deeds_answering, gotten_answering, if_true, husable, perform]
          at hwritten hinOrder
        refine serving_answer (h.accepted_of_deeds (by simp [hmain])) id rfl (fun hc => ?_) ?_
        · simpa [hreturned] using hinOrder hc
        · simp [hreturned, htake, husable, hwritten]
      · refine h.frame id rfl rfl ?_ ?_
        · cases Spin.write data result <;> simp [hmain, hne]
        · simp only [set_connection_of_ne hne.symm]
          exact ⟨rfl, rfl, rfl⟩
  | @refuse c' data deeds hmain husable =>
      rcases eq_or_ne c' c with rfl | hne
      · have hwritten := h.written
        have hinOrder := h.inOrder
        simp only [hmain, deeds_answering, gotten_answering, if_true, husable, perform]
          at hwritten hinOrder
        refine serving_answer (h.accepted_of_deeds (by simp [hmain])) id rfl (fun hc => ?_) ?_
        · simpa using hinOrder hc
        · simpa [husable, perform] using hwritten
      · exact h.frame id rfl rfl (by simp [hmain, hne]) ⟨rfl, rfl, rfl⟩
  | @close c' deeds hmain =>
      rcases eq_or_ne c' c with rfl | hne
      · have hwritten := h.written
        have hinOrder := h.inOrder
        simp only [hmain, deeds_answering, gotten_answering, if_true, perform_close]
          at hwritten hinOrder
        refine serving_answer (h.accepted_of_deeds (by simp [hmain])) id rfl (fun hc => ?_) ?_
        · simpa using hinOrder hc
        · simpa using hwritten
      · refine h.frame id rfl rfl (by simp [hmain, hne]) ?_
        simp only [set_connection_of_ne hne.symm]
        exact ⟨rfl, rfl, rfl⟩
  | @done c' hmain => exact h.frame id rfl rfl (by simp [hmain]) ⟨rfl, rfl, rfl⟩

/-- In every state of a run in which the BIO of the connection takes what is written. -/
lemma serving (h : RunTo Step (Server.init : Server γ) as s)
    (hwhole : EveryStep Step (WritesWhole c) (Server.init : Server γ) as) : Serving c s := by
  have halways : Always Step (fun s => Serving c s ∧ Traced s) (Server.init : Server γ) as :=
    always_of_everyStep
      (fun _ _ _ hs hq hstep => ⟨hs.1.step hs.2 hq hstep, hs.2.step hstep⟩)
      ⟨serving_init c, traced_init⟩ hwhole
  exact (halways.last h).1

/-- What the invariants say of the bytes that were written. -/
lemma Serving.transcript_eq (h : Serving c s) (htraced : Traced s) (hc : c ∈ s.connections_) :
    (transcript true (feed none (s.connection c).read).handled).1
      = (s.connection c).written ++ (perform (s.connection c).usable (s.main.deeds c)).1
        ++ (transcript (perform (s.connection c).usable (s.main.deeds c)).2 (s.underWay c)).1 := by
  rw [← htraced.requests c, h.inOrder hc, List.append_assoc, List.append_assoc,
    transcript_append, h.written, Server.underWay]
  simp only [List.append_assoc]

/-- **At every time** what has been written on a connection that is there, what is still to be
written for the request in hand and the answers to the requests that are under way are the
transcript of the data that have been read from it. -/
theorem transcript_traced (h : RunTo Step (Server.init : Server γ) as s)
    (hwhole : EveryStep Step (WritesWhole c) (Server.init : Server γ) as)
    (hc : c ∈ s.connections_) :
    (transcript true (feed none (s.connection c).read).handled).1
      = (s.connection c).written ++ (perform (s.connection c).usable (s.main.deeds c)).1
        ++ (transcript (perform (s.connection c).usable (s.main.deeds c)).2 (s.underWay c)).1 :=
  (serving h hwhole).transcript_eq (traced h) hc

lemma answering_whole (data w : Bytes) :
    EveryStep Step (WritesWhole ()) (Server.init : Server Unit) (answering data w) := by
  refine everyStep_of_forall fun a ha s deeds data' result _ hwrite => ?_
  subst hwrite
  have hmem : (Action.write data' result : Action Unit) = .write w (wholeWrite w) := by
    simpa [answering] using ha
  cases hmem
  rfl

theorem transcript_traced_root :
    (transcript true (feed none [rootLine]).handled).1
      = redirection ++ (perform true []).1 ++ (transcript true []).1 :=
  transcript_traced rootLine_run (answering_whole _ _) (List.mem_singleton_self ())

end Arachnida.Mesothelae
