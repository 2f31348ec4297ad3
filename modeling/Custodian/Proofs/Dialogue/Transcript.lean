import Custodian.Proofs.Dialogue.Contract

/-!
# What was asked and answered

A transcript has the questions of a dialogue with their answers, in the order in which they were
asked. What a dialogue leaves in it whatever it is answered is said by `Dialogue.Leaves`, which has
a rule for each way of building a dialogue, as `Dialogue.Ensures` has. There the postcondition is
about the end alone; here it is about the end and everything on the way to it.

* `Dialogue.transcribed` keeps a transcript beside any state, and `Dialogue.Leaves.of_runsTo` brings
  what is left to such a run;
* `Dialogue.Ensures.leaves` turns what is ensured under a contract that allows all answers into
  what is left: only admitted questions are added to the transcript.
-/

namespace Custodian

/-- A question with the answer that was given to it. -/
structure Exchange where
  question : Question
  answer : question.Answer

/-- What was asked and answered. -/
abbrev Transcript := List Exchange

/-! ## Dialogues -/

namespace Dialogue

variable {α β σ : Type} {post post' : α → Transcript → Prop} {log : Transcript}

/-- States that answer as given, with a transcript. -/
def transcribed (step : Answering σ) : Answering (σ × Transcript) := fun s q a t =>
  step s.1 q a t.1 ∧ t.2 = s.2 ++ [⟨q, a⟩]

/-- The transcript of running a dialogue against a store. -/
def transcript (answer : (q : Question) → StateM σ q.Answer) : Dialogue α → σ → Transcript
  | done _, _ => []
  | ask q next, s =>
    let (a, t) := (answer q).run s
    ⟨q, a⟩ :: (next a).transcript answer t

/-- Running a dialogue against a store is one of its transcribed runs. -/
theorem runsTo_transcript {step : Answering σ} {answer : (q : Question) → StateM σ q.Answer}
    (hstep : ∀ s q, step s q ((answer q).run s).1 ((answer q).run s).2) (d : Dialogue α) :
    ∀ s log, d.RunsTo (transcribed step) (s, log) ((d.run answer).run s).1
      (((d.run answer).run s).2, log ++ d.transcript answer s) := by
  induction d with
  | done value =>
    intro s log
    rw [transcript, List.append_nil]
    exact .done value (s, log)
  | ask q next ih =>
    intro s log
    have hrest := ih ((answer q).run s).1 ((answer q).run s).2
      (log ++ [⟨q, ((answer q).run s).1⟩])
    rw [List.append_assoc, List.singleton_append] at hrest
    exact .ask ⟨hstep s q, rfl⟩ hrest

/-- Whatever is answered, the end and the transcript that is kept from a given one on satisfy
`post`. -/
def Leaves (post : α → Transcript → Prop) : Dialogue α → Transcript → Prop
  | done value, log => post value log
  | ask q next, log => ∀ a, (next a).Leaves post (log ++ [⟨q, a⟩])

@[simp] theorem leaves_pure (value : α) :
    (pure value : Dialogue α).Leaves post log ↔ post value log := Iff.rfl

theorem leaves_ask {q : Question} {next : q.Answer → Dialogue α} :
    (ask q next).Leaves post log ↔ ∀ a, (next a).Leaves post (log ++ [⟨q, a⟩]) := Iff.rfl

@[simp] theorem leaves_question {q : Question} {post : q.Answer → Transcript → Prop} :
    (question q).Leaves post log ↔ ∀ a, post a (log ++ [⟨q, a⟩]) := Iff.rfl

/-- What comes second goes on with the transcript of the first part. -/
@[simp] theorem leaves_bind (d : Dialogue β) (f : β → Dialogue α) :
    (d >>= f).Leaves post log ↔ d.Leaves (fun b log => (f b).Leaves post log) log := by
  show (d.bind f).Leaves post log ↔ _
  induction d generalizing log with
  | done value => rfl
  | ask q next ih =>
    rw [Dialogue.bind, leaves_ask, leaves_ask]
    simp only [ih]

/-- A postcondition may be weakened. -/
theorem Leaves.mono {d : Dialogue α} (h : d.Leaves post log)
    (himp : ∀ a log, post a log → post' a log) : d.Leaves post' log := by
  induction d generalizing log with
  | done value => exact himp value log h
  | ask q next ih => exact fun a => ih a (h a)

theorem Leaves.and {d : Dialogue α} (h : d.Leaves post log) (h' : d.Leaves post' log) :
    d.Leaves (fun a log => post a log ∧ post' a log) log := by
  induction d generalizing log with
  | done value => exact ⟨h, h'⟩
  | ask q next ih => exact fun a => ih a (h a) (h' a)

/-- A transcribed run ends as the dialogue leaves it. -/
theorem Leaves.of_runsTo {step : Answering σ} {d : Dialogue α} {s t : σ × Transcript} {value : α}
    (h : d.Leaves post s.2) (hrun : d.RunsTo (transcribed step) s value t) : post value t.2 := by
  induction hrun with
  | done value s => exact h
  | ask answered rest ih =>
    apply ih
    rw [answered.2]
    exact h _

/-- Where all answers are allowed, what is ensured is left, and only admitted questions have been
asked. -/
theorem Ensures.leaves {C : Contract} (hallowed : ∀ q a, C.allowed q a) {post : α → Prop}
    {d : Dialogue α} (h : d.Ensures C post) (log : Transcript) :
    d.Leaves (fun a log' => post a ∧
      ∃ more, log' = log ++ more ∧ ∀ x ∈ more, C.asked x.question) log := by
  induction d generalizing log with
  | done value => exact ⟨h, [], (List.append_nil log).symm, fun x hx => (nomatch hx)⟩
  | ask q next ih =>
    intro a
    refine (ih a (h.2 a (hallowed q a)) (log ++ [⟨q, a⟩])).mono fun value log' hvalue => ?_
    obtain ⟨hpost, more, rfl, hmore⟩ := hvalue
    refine ⟨hpost, ⟨q, a⟩ :: more, ?_, ?_⟩
    · rw [List.append_assoc, List.singleton_append]
    · intro x hx
      rcases List.mem_cons.mp hx with rfl | hx
      · exact h.1
      · exact hmore x hx

end Dialogue

/-! ## Dialogues that may fail -/

namespace Attempt

variable {α β : Type} {post post' : α → Transcript → Prop} {fail fail' : Transcript → Prop}
  {log : Transcript}

/-- What an end satisfies together with the transcript: `post` if it is a value, `fail` if it is
an error. -/
def EndsAfter (post : α → Transcript → Prop) (fail : Transcript → Prop) :
    Except Error α → Transcript → Prop
  | .ok a => post a
  | .error _ => fail

/-- Whatever is answered, a value at the end satisfies `post` together with the transcript, and
with an error at the end the transcript satisfies `fail`. -/
def Leaves (post : α → Transcript → Prop) (fail : Transcript → Prop) (x : Attempt α)
    (log : Transcript) : Prop :=
  Dialogue.Leaves (EndsAfter post fail) x.run log

@[simp] theorem leaves_pure (a : α) : (pure a : Attempt α).Leaves post fail log ↔ post a log :=
  Iff.rfl

@[simp] theorem leaves_throw (e : Error) :
    (throw e : Attempt α).Leaves post fail log ↔ fail log := Iff.rfl

/-- What comes second goes on with the transcript of the first part; a failure of either is one
of the whole. -/
@[simp] theorem leaves_bind (x : Attempt β) (f : β → Attempt α) :
    (x >>= f).Leaves post fail log ↔
      x.Leaves (fun b log => (f b).Leaves post fail log) fail log := by
  show Dialogue.Leaves (EndsAfter post fail) (x.run >>= ExceptT.bindCont f) log ↔ _
  rw [Dialogue.leaves_bind]
  constructor
  · intro h
    refine h.mono fun r log hr => ?_
    cases r with
    | ok b => exact hr
    | error e => exact hr
  · intro h
    refine h.mono fun r log hr => ?_
    cases r with
    | ok b => exact hr
    | error e => exact hr

/-- A dialogue that does not fail by itself. -/
@[simp] theorem leaves_lift (d : Dialogue α) :
    Leaves post fail (ExceptT.lift d) log ↔ d.Leaves post log := by
  show Dialogue.Leaves (EndsAfter post fail) (Except.ok <$> d) log ↔ _
  rw [show (Except.ok <$> d : Dialogue (Except Error α)) = d >>= fun a => pure (.ok a) from rfl,
    Dialogue.leaves_bind]
  rfl

@[simp] theorem leaves_question {q : Question} {post : q.Answer → Transcript → Prop} :
    (question q).Leaves post fail log ↔ ∀ a, post a (log ++ [⟨q, a⟩]) := by
  rw [question, leaves_lift, Dialogue.leaves_question]

/-- Both postconditions may be weakened. -/
theorem Leaves.mono {x : Attempt α} (h : x.Leaves post fail log)
    (hpost : ∀ a log, post a log → post' a log) (hfail : ∀ log, fail log → fail' log) :
    x.Leaves post' fail' log := by
  refine Dialogue.Leaves.mono h fun r log hr => ?_
  cases r with
  | ok a => exact hpost a log hr
  | error e => exact hfail log hr

theorem Leaves.and {x : Attempt α} (h : x.Leaves post fail log) (h' : x.Leaves post' fail' log) :
    x.Leaves (fun a log => post a log ∧ post' a log) (fun log => fail log ∧ fail' log) log := by
  refine Dialogue.Leaves.mono (Dialogue.Leaves.and h h') fun r log hr => ?_
  cases r with
  | ok a => exact hr
  | error e => exact hr

/-- A transcribed run ends as the attempt leaves it. -/
theorem Leaves.of_runsTo {σ : Type} {step : Dialogue.Answering σ} {x : Attempt α}
    {s t : σ × Transcript} {result : Except Error α} (h : x.Leaves post fail s.2)
    (hrun : x.run.RunsTo (Dialogue.transcribed step) s result t) : EndsAfter post fail result t.2 :=
  Dialogue.Leaves.of_runsTo h hrun

/-- Where all answers are allowed, what is ensured is left, and only admitted questions have been
asked, also if the end is an error. -/
theorem Ensures.leaves {C : Contract} (hallowed : ∀ q a, C.allowed q a) {post : α → Prop}
    {fail : Error → Prop} {x : Attempt α} (h : x.Ensures C post fail) (log : Transcript) :
    x.Leaves
      (fun a log' => post a ∧ ∃ more, log' = log ++ more ∧ ∀ x ∈ more, C.asked x.question)
      (fun log' => ∃ more, log' = log ++ more ∧ ∀ x ∈ more, C.asked x.question) log := by
  refine Dialogue.Leaves.mono (Dialogue.Ensures.leaves hallowed h log) fun r log' hr => ?_
  cases r with
  | ok a => exact hr
  | error e => exact hr.2

/-- The rule for a loop over a list, with an invariant of the value and the transcript. -/
theorem leaves_foldlM {ι : Type} {body : β → ι → Attempt β} {Inv : β → Transcript → Prop}
    {items : List ι}
    (hbody : ∀ i ∈ items, ∀ b log, Inv b log → (body b i).Leaves Inv fail log) :
    ∀ (b : β) (log : Transcript), Inv b log → (items.foldlM body b).Leaves Inv fail log := by
  induction items with
  | nil => exact fun b log h => h
  | cons i items ih =>
    intro b log h
    rw [List.foldlM_cons, leaves_bind]
    refine (hbody i List.mem_cons_self b log h).mono (fun b' log' h' => ?_) fun _ he => he
    exact ih (fun i' hi' => hbody i' (List.mem_cons_of_mem i hi')) b' log' h'

end Attempt

end Custodian
