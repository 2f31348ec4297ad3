import Custodian.Replay.Dialogue

/-!
# What every run of a dialogue ensures

A contract says which questions a dialogue may ask and which answers it may be given. A
dialogue *ensures* a postcondition under a contract if, as long as the answers keep to the
contract, it asks only what it may and ends in the postcondition.

Three things live here:

* `Dialogue.Ensures` with a rule for each way of building a dialogue, and `Attempt.Ensures`,
  the same for dialogues that may fail, with a postcondition for failures of its own;
* `Attempt.ensures_foldlM`, the rule for a loop over a list, whose invariant sees what has
  been done and what is left;
* `Dialogue.RunsTo`, the runs of a dialogue against a state that may answer in several ways,
  and `Dialogue.Ensures.of_runsTo`, which brings what is ensured to such a run.
-/

namespace Custodian

/-- Which questions may be asked, and which answers may be given to each. -/
structure Contract where
  asked : Question → Prop
  allowed : (q : Question) → q.Answer → Prop

/-! ## Dialogues -/

namespace Dialogue

section Laws

variable {α β γ : Type}

theorem bind_done (d : Dialogue α) : d.bind done = d := by
  induction d with
  | done value => rfl
  | ask q next ih =>
    rw [Dialogue.bind]
    congr 1
    funext a
    exact ih a

theorem bind_assoc (d : Dialogue α) (f : α → Dialogue β) (g : β → Dialogue γ) :
    (d.bind f).bind g = d.bind fun a => (f a).bind g := by
  induction d with
  | done value => rfl
  | ask q next ih =>
    simp only [Dialogue.bind]
    congr 1
    funext a
    exact ih a

instance : LawfulMonad Dialogue :=
  LawfulMonad.mk' Dialogue bind_done (fun _ _ => rfl) bind_assoc

end Laws

variable {α β : Type} {C : Contract} {post post' : α → Prop}

/-- As long as answers are allowed, only admitted questions are asked and the end satisfies
`post`. -/
def Ensures (C : Contract) (post : α → Prop) : Dialogue α → Prop
  | done value => post value
  | ask q next => C.asked q ∧ ∀ a, C.allowed q a → (next a).Ensures C post

@[simp] theorem ensures_done (value : α) : (done value).Ensures C post ↔ post value := Iff.rfl

@[simp] theorem ensures_pure (value : α) :
    (pure value : Dialogue α).Ensures C post ↔ post value := Iff.rfl

theorem ensures_ask {q : Question} {next : q.Answer → Dialogue α} :
    (ask q next).Ensures C post ↔
      C.asked q ∧ ∀ a, C.allowed q a → (next a).Ensures C post := Iff.rfl

@[simp] theorem ensures_question {q : Question} {post : q.Answer → Prop} :
    (question q).Ensures C post ↔ C.asked q ∧ ∀ a, C.allowed q a → post a := Iff.rfl

/-- What comes second may rely on what the first part ensures. -/
@[simp] theorem ensures_bind (d : Dialogue β) (f : β → Dialogue α) :
    (d >>= f).Ensures C post ↔ d.Ensures C fun b => (f b).Ensures C post := by
  show (d.bind f).Ensures C post ↔ _
  induction d with
  | done value => rfl
  | ask q next ih =>
    rw [Dialogue.bind, ensures_ask, ensures_ask]
    simp only [ih]

/-- A postcondition may be weakened. -/
theorem Ensures.mono {d : Dialogue α} (h : d.Ensures C post) (himp : ∀ a, post a → post' a) :
    d.Ensures C post' := by
  induction d with
  | done value => exact himp value h
  | ask q next ih => exact ⟨h.1, fun a ha => ih a (h.2 a ha)⟩

/-- What is ensured under two contracts holds together under one that admits what both admit and
allows only what both allow. -/
theorem Ensures.and {D E : Contract} {d : Dialogue α} (h : d.Ensures C post)
    (h' : d.Ensures D post') (hasked : ∀ q, C.asked q → D.asked q → E.asked q)
    (hallowed : ∀ q a, E.allowed q a → C.allowed q a ∧ D.allowed q a) :
    d.Ensures E fun a => post a ∧ post' a := by
  induction d with
  | done value => exact ⟨h, h'⟩
  | ask q next ih =>
    refine ⟨hasked q h.1 h'.1, fun a ha => ?_⟩
    have hboth := hallowed q a ha
    exact ih a (h.2 a hboth.1) (h'.2 a hboth.2)

/-- A contract may admit more questions and allow fewer answers. -/
theorem Ensures.under {D : Contract} {d : Dialogue α} (h : d.Ensures C post)
    (hasked : ∀ q, C.asked q → D.asked q) (hallowed : ∀ q a, D.allowed q a → C.allowed q a) :
    d.Ensures D post := by
  induction d with
  | done value => exact h
  | ask q next ih => exact ⟨hasked q h.1, fun a ha => ih a (h.2 a (hallowed q a ha))⟩

end Dialogue

/-! ## Dialogues that may fail -/

namespace Attempt

variable {α β : Type} {C : Contract} {post post' : α → Prop} {fail fail' : Error → Prop}

/-- What an end satisfies: `post` if it is a value, `fail` if it is an error. -/
def Ends (post : α → Prop) (fail : Error → Prop) : Except Error α → Prop
  | .ok a => post a
  | .error e => fail e

@[simp] theorem ends_ok {a : α} : Ends post fail (.ok a) ↔ post a := Iff.rfl

@[simp] theorem ends_error {e : Error} : Ends post fail (.error e) ↔ fail e := Iff.rfl

theorem Ends.mono {r : Except Error α} (h : Ends post fail r) (hpost : ∀ a, post a → post' a)
    (hfail : ∀ e, fail e → fail' e) : Ends post' fail' r := by
  cases r with
  | ok a => exact hpost a h
  | error e => exact hfail e h

/-- As long as answers are allowed, only admitted questions are asked, a value at the end
satisfies `post`, and an error at the end satisfies `fail`. -/
def Ensures (C : Contract) (post : α → Prop) (fail : Error → Prop) (x : Attempt α) : Prop :=
  Dialogue.Ensures C (Ends post fail) x.run

/-- A postcondition of what an attempt ends in, whether it is a value or an error. -/
theorem ensures_run_iff {ends : Except Error α → Prop} {x : Attempt α} :
    Dialogue.Ensures C ends x.run ↔
      x.Ensures C (fun a => ends (.ok a)) fun e => ends (.error e) := by
  constructor
  · intro h
    refine Dialogue.Ensures.mono h fun r hr => ?_
    cases r with
    | ok a => exact hr
    | error e => exact hr
  · intro h
    refine Dialogue.Ensures.mono h fun r hr => ?_
    cases r with
    | ok a => exact hr
    | error e => exact hr

/-- An end that is known beforehand. -/
theorem ensures_run_eq {r : Except Error α} {x : Attempt α} :
    Dialogue.Ensures C (· = r) x.run ↔
      x.Ensures C (fun a => r = .ok a) fun e => r = .error e := by
  have hsame : (· = r) = fun r' : Except Error α => r = r' := funext fun _ => propext eq_comm
  rw [hsame]
  exact ensures_run_iff

@[simp] theorem ensures_pure (a : α) : (pure a : Attempt α).Ensures C post fail ↔ post a :=
  Iff.rfl

@[simp] theorem ensures_throw (e : Error) :
    (throw e : Attempt α).Ensures C post fail ↔ fail e := Iff.rfl

@[simp] theorem ensures_ofExcept (r : Except Error α) :
    (ofExcept r).Ensures C post fail ↔ Ends post fail r := Iff.rfl

/-- What comes second may rely on what the first part ensures; a failure of either is one of
the whole. -/
@[simp] theorem ensures_bind (x : Attempt β) (f : β → Attempt α) :
    (x >>= f).Ensures C post fail ↔ x.Ensures C (fun b => (f b).Ensures C post fail) fail := by
  show Dialogue.Ensures C (Ends post fail) (x.run >>= ExceptT.bindCont f) ↔ _
  rw [Dialogue.ensures_bind]
  constructor
  · intro h
    refine h.mono fun r hr => ?_
    cases r with
    | ok b => exact hr
    | error e => exact hr
  · intro h
    refine h.mono fun r hr => ?_
    cases r with
    | ok b => exact hr
    | error e => exact hr

/-- A dialogue that does not fail by itself. -/
@[simp] theorem ensures_lift (d : Dialogue α) :
    Ensures C post fail (ExceptT.lift d) ↔ d.Ensures C post := by
  show Dialogue.Ensures C (Ends post fail) (Except.ok <$> d) ↔ _
  rw [show (Except.ok <$> d : Dialogue (Except Error α)) = d >>= fun a => pure (.ok a) from rfl,
    Dialogue.ensures_bind]
  rfl

@[simp] theorem ensures_question {q : Question} {post : q.Answer → Prop} :
    (question q).Ensures C post fail ↔ C.asked q ∧ ∀ a, C.allowed q a → post a := by
  rw [question, ensures_lift, Dialogue.ensures_question]

/-- Both postconditions may be weakened. -/
theorem Ensures.mono {x : Attempt α} (h : x.Ensures C post fail)
    (hpost : ∀ a, post a → post' a) (hfail : ∀ e, fail e → fail' e) :
    x.Ensures C post' fail' :=
  Dialogue.Ensures.mono h fun _ hr => Ends.mono hr hpost hfail

/-- What is ensured under two contracts holds together under one that admits what both admit and
allows only what both allow. -/
theorem Ensures.and {D E : Contract} {x : Attempt α} (h : x.Ensures C post fail)
    (h' : x.Ensures D post' fail') (hasked : ∀ q, C.asked q → D.asked q → E.asked q)
    (hallowed : ∀ q a, E.allowed q a → C.allowed q a ∧ D.allowed q a) :
    x.Ensures E (fun a => post a ∧ post' a) fun e => fail e ∧ fail' e := by
  refine Dialogue.Ensures.mono (Dialogue.Ensures.and h h' hasked hallowed) fun r hr => ?_
  cases r with
  | ok a => exact hr
  | error e => exact hr

/-- The rule for a loop over a list: an invariant of what is done and what is left. -/
theorem ensures_foldlM {ι : Type} {body : β → ι → Attempt β} (Inv : List ι → List ι → β → Prop)
    (hbody : ∀ before i after b, Inv before (i :: after) b →
      (body b i).Ensures C (Inv (before ++ [i]) after) fail) (items : List ι) :
    ∀ (before : List ι) (b : β), Inv before items b →
      (items.foldlM body b).Ensures C (Inv (before ++ items) []) fail := by
  induction items with
  | nil =>
    intro before b hb
    rw [List.foldlM_nil, ensures_pure, List.append_nil]
    exact hb
  | cons i items ih =>
    intro before b hb
    rw [List.foldlM_cons, ensures_bind]
    refine (hbody before i items b hb).mono (fun b' hb' => ?_) fun e he => he
    have h := ih (before ++ [i]) b' hb'
    rwa [List.append_assoc, List.singleton_append] at h

end Attempt

/-! ## Runs -/

namespace Dialogue

variable {α σ : Type} {C : Contract} {post : α → Prop}

/-- How a state may answer a question, and what it is afterwards. -/
abbrev Answering (σ : Type) := σ → (q : Question) → q.Answer → σ → Prop

/-- The runs of a dialogue from one state to another. -/
inductive RunsTo (step : Answering σ) : Dialogue α → σ → α → σ → Prop
  | done (value : α) (s : σ) : RunsTo step (done value) s value s
  | ask {q : Question} {next : q.Answer → Dialogue α} {a : q.Answer} {s t u : σ} {value : α}
      (answered : step s q a t) (rest : RunsTo step (next a) t value u) :
      RunsTo step (ask q next) s value u

/-- A run of the first part of a sequence and one of its second part. -/
theorem RunsTo.bind {β : Type} {step : Answering σ} {d : Dialogue β} {f : β → Dialogue α}
    {s t u : σ} {b : β} {value : α} (h : d.RunsTo step s b t)
    (hrest : (f b).RunsTo step t value u) : (d >>= f).RunsTo step s value u := by
  induction h with
  | done b s => exact hrest
  | ask answered _ ih => exact .ask answered (ih hrest)

/-- A run of a sequence is a run of its first part and then one of its second part. -/
theorem RunsTo.of_bind {β : Type} {step : Answering σ} {d : Dialogue β} {f : β → Dialogue α}
    {s u : σ} {value : α} (h : (d >>= f).RunsTo step s value u) :
    ∃ b t, d.RunsTo step s b t ∧ (f b).RunsTo step t value u := by
  induction d generalizing s with
  | done b => exact ⟨b, s, .done b s, h⟩
  | ask q next ih =>
    cases h with
    | ask answered rest =>
      obtain ⟨b, t, hfirst, hrest⟩ := ih _ rest
      exact ⟨b, t, .ask answered hfirst, hrest⟩

/-- Answers from states that satisfy `Inv` are allowed, and lead to such states. -/
def Keeps (C : Contract) (step : Answering σ) (Inv : σ → Prop) : Prop :=
  ∀ s q a t, Inv s → C.asked q → step s q a t → C.allowed q a ∧ Inv t

/-- A run against states that keep the contract ends as the dialogue ensures. -/
theorem Ensures.of_runsTo {step : Answering σ} {Inv : σ → Prop} (hkeeps : Keeps C step Inv)
    {d : Dialogue α} {s t : σ} {value : α} (h : d.Ensures C post)
    (hrun : d.RunsTo step s value t) (hs : Inv s) : post value ∧ Inv t := by
  induction hrun with
  | done value s => exact ⟨h, hs⟩
  | ask answered rest ih =>
    obtain ⟨hasked, hnext⟩ := h
    obtain ⟨hallowed, hinv⟩ := hkeeps _ _ _ _ hs hasked answered
    exact ih (hnext _ hallowed) hinv

/-- Running a dialogue against a store is one of its runs. -/
theorem runsTo_run {step : Answering σ} {answer : (q : Question) → StateM σ q.Answer}
    (hstep : ∀ s q, step s q ((answer q).run s).1 ((answer q).run s).2) (d : Dialogue α) :
    ∀ s, d.RunsTo step s ((d.run answer).run s).1 ((d.run answer).run s).2 := by
  induction d with
  | done value => exact fun s => .done value s
  | ask q next ih => exact fun s => .ask (hstep s q) (ih _ _)

/-- Where one way of answering shows through another one, so do its runs. -/
theorem run_projects {τ : Type} {answer : (q : Question) → StateM σ q.Answer}
    {answer' : (q : Question) → StateM τ q.Answer} (f : τ → σ)
    (h : ∀ q s, ((answer' q).run s).1 = ((answer q).run (f s)).1 ∧
      f ((answer' q).run s).2 = ((answer q).run (f s)).2) (d : Dialogue α) :
    ∀ s, ((d.run answer').run s).1 = ((d.run answer).run (f s)).1 ∧
      f ((d.run answer').run s).2 = ((d.run answer).run (f s)).2 := by
  induction d with
  | done value => exact fun s => ⟨rfl, rfl⟩
  | ask q next ih =>
    intro s
    obtain ⟨hanswer, hafter⟩ := h q s
    obtain ⟨hvalue, hstate⟩ := ih ((answer' q).run s).1 ((answer' q).run s).2
    refine ⟨hvalue.trans ?_, hstate.trans ?_⟩
    · rw [hafter, hanswer]
      rfl
    · rw [hafter, hanswer]
      rfl

/-- If states only grow, each state on the way is within the last one. -/
theorem RunsTo.within {step : Answering σ} {le : σ → σ → Prop} (hrefl : ∀ s, le s s)
    (htrans : ∀ s t u, le s t → le t u → le s u) (hgrows : ∀ s q a t, step s q a t → le s t)
    {d : Dialogue α} {s u : σ} {value : α} (h : d.RunsTo step s value u) :
    le s u ∧ d.RunsTo (fun s q a t => step s q a t ∧ le t u) s value u := by
  induction h with
  | done value s => exact ⟨hrefl s, .done value s⟩
  | ask answered _ ih =>
    exact ⟨htrans _ _ _ (hgrows _ _ _ _ answered) ih.1, .ask ⟨answered, ih.1⟩ ih.2⟩

end Dialogue

namespace Attempt

variable {α β σ : Type} {step : Dialogue.Answering σ} {s u : σ} {result : Except Error α}

/-- A sequence ends with its second part, or with a failure of its first. -/
theorem of_runsTo_bind {x : Attempt β} {f : β → Attempt α}
    (h : (x >>= f).run.RunsTo step s result u) :
    (∃ b t, x.run.RunsTo step s (.ok b) t ∧ (f b).run.RunsTo step t result u) ∨
      ∃ e, x.run.RunsTo step s (.error e) u ∧ result = .error e := by
  have hsplit : (x >>= f).run = x.run >>= ExceptT.bindCont f := rfl
  rw [hsplit] at h
  obtain ⟨r, t, hfirst, hrest⟩ := h.of_bind
  rcases r with e | b
  · cases hrest
    exact .inr ⟨e, hfirst, rfl⟩
  · exact .inl ⟨b, t, hfirst, hrest⟩

/-- A question ends in its answer. -/
theorem of_runsTo_question {q : Question} {result : Except Error q.Answer}
    (h : (question q).run.RunsTo step s result u) : ∃ a, result = .ok a ∧ step s q a u := by
  have hask : (question q).run = .ask q fun a => .done (.ok a) := rfl
  rw [hask] at h
  cases h with
  | ask answered rest =>
    cases rest
    exact ⟨_, rfl, answered⟩

end Attempt

end Custodian
