import Custodian.Proofs.Dialogue.SideBySide
import Mathlib.Data.Multiset.AddSub
import Mathlib.Logic.Hydra

/-!
# Dialogues in a buffer

Several dialogues wait in a buffer of some width. Any of those in front, as many as the buffer
is wide, may ask its next question at any time. The results are taken in the order of the
dialogues, and each one that is taken lets one more dialogue into the buffer; the first failure
in that order ends everything. This is `Buffered.Step`, with no order imposed on the turns.

Three things live here:

* `Buffered.inevitably_outcome`: if each dialogue ends in a result of its own whatever it is
  answered, then every interleaving comes to an end, with all results or with the first failure
  among them;
* `Buffered.outcome_of_reachable`: no interleaving comes to anything else;
* `Attempt.ensures_mapM`: dialogues one after another come to the same.

An interleaving always comes to an end, because each turn replaces a dialogue by what is left of
it, and what is left is smaller (`Dialogue.wellFounded_rest`).
-/

namespace Custodian

/-! ## Sooner or later -/

/-- However the steps are chosen, a state with the property is reached. -/
inductive Inevitably {β : Type} (step : β → β → Prop) (p : β → Prop) : β → Prop
  | now {b : β} (h : p b) : Inevitably step p b
  | later {b : β} (hgoes : ∃ b', step b b') (h : ∀ b', step b b' → Inevitably step p b') :
      Inevitably step p b

/-- Where steps cannot go on for ever, and keep an invariant under which there is a next step
until the property holds, the property is reached. -/
theorem Inevitably.of_invariant {β : Type} {step : β → β → Prop} {p Inv : β → Prop}
    (hends : WellFounded fun b' b => step b b') (hstep : ∀ b b', Inv b → step b b' → Inv b')
    (hgoes : ∀ b, Inv b → p b ∨ ∃ b', step b b') (b : β) (h : Inv b) : Inevitably step p b := by
  induction b using hends.induction with
  | _ b ih =>
    rcases hgoes b h with hp | hnext
    · exact .now hp
    · exact .later hnext fun b' hb' => ih b' hb' (hstep b b' h hb')

namespace Dialogue

variable {α : Type}

/-! ## What is left of a dialogue -/

/-- The first dialogue is what is left of the second one after its first question. -/
def Rest (d' d : Dialogue α) : Prop :=
  ∃ (q : Question) (next : q.Answer → Dialogue α) (a : q.Answer), d = ask q next ∧ d' = next a

/-- No dialogue goes on for ever. -/
theorem wellFounded_rest : WellFounded (@Rest α) := by
  constructor
  intro d
  induction d with
  | done value =>
    constructor
    rintro d' ⟨q, next, a, heq, -⟩
    cases heq
  | ask q next ih =>
    constructor
    rintro d' ⟨q', next', a, heq, rfl⟩
    cases heq
    exact ih a

/-! ## Several dialogues -/

namespace EndIn

variable {C : Contract} {before after : List (Dialogue α)} {d d' : Dialogue α} {results : List α}

/-- A dialogue among others may be replaced by one that ends in the same. -/
theorem replace (h : EndIn C (before ++ d :: after) results)
    (hd : ∀ post, d.Ensures C post → d'.Ensures C post) :
    EndIn C (before ++ d' :: after) results := by
  induction before generalizing results with
  | nil =>
    cases h with
    | cons hfirst hothers => exact .cons (hd _ hfirst) hothers
  | cons first before ih =>
    cases h with
    | cons hfirst hothers => exact .cons hfirst (ih hothers)

/-- A dialogue among others asks only what it may. -/
theorem asked {q : Question} {next : q.Answer → Dialogue α}
    (h : EndIn C (before ++ ask q next :: after) results) : C.asked q := by
  induction before generalizing results with
  | nil =>
    cases h with
    | cons hfirst hothers => exact hfirst.1
  | cons first before ih =>
    cases h with
    | cons hfirst hothers => exact ih hothers

end EndIn

end Dialogue

/-! ## One after another -/

namespace Attempt

variable {ι α : Type} {C : Contract} {f : ι → Attempt α} {result : ι → Except Error α}

/-- Attempts one after another come to the list of their results, or to the first failure. -/
theorem ensures_mapM (h : ∀ i, Dialogue.Ensures C (· = result i) (f i).run) (items : List ι) :
    Dialogue.Ensures C (· = (items.map result).mapM id) (items.mapM f).run := by
  induction items with
  | nil => rfl
  | cons i items ih =>
    rw [List.mapM_cons, ensures_run_eq, ensures_bind, List.map_cons, List.mapM_cons]
    refine (ensures_run_eq.mp (h i)).mono (fun value hvalue => ?_) fun e he => ?_
    · rw [ensures_bind]
      show Attempt.Ensures _ _ _ _
      refine (ensures_run_eq.mp ih).mono (fun values hvalues => ?_) fun e he => ?_
      · rw [id, hvalue, hvalues]
        rfl
      · rw [id, hvalue, he]
        rfl
    · rw [id, he]
      rfl

end Attempt

/-! ## The buffer -/

/-- Dialogues in a buffer: the results taken so far, the dialogues whose results are still to
come, and what answers them. -/
structure Buffered (α σ : Type) where
  taken : List α
  waiting : List (Dialogue (Except Error α))
  state : σ

namespace Buffered

variable {α σ : Type} {answers : Dialogue.Answering σ} {width : Nat} {b b' : Buffered α σ}

/-- One step: a dialogue in the buffer asks its next question, or the result in front is
taken. -/
inductive Step (answers : Dialogue.Answering σ) (width : Nat) :
    Buffered α σ → Buffered α σ → Prop
  | turn {q : Question} {next : q.Answer → Dialogue (Except Error α)} {a : q.Answer} {s s' : σ}
      (taken : List α) (before after : List (Dialogue (Except Error α)))
      (hopen : before.length < width) (answered : answers s q a s') :
      Step answers width ⟨taken, before ++ .ask q next :: after, s⟩
        ⟨taken, before ++ next a :: after, s'⟩
  | take (taken : List α) (value : α) (waiting : List (Dialogue (Except Error α))) (s : σ) :
      Step answers width ⟨taken, .done (.ok value) :: waiting, s⟩ ⟨taken ++ [value], waiting, s⟩

/-- What everything has come to, once it has come to an end: all results, or the failure in
front. -/
def outcome? (b : Buffered α σ) : Option (Except Error (List α)) :=
  match b.waiting with
  | [] => some (.ok b.taken)
  | .done (.error e) :: _ => some (.error e)
  | .done (.ok _) :: _ => none
  | .ask _ _ :: _ => none

/-- Steps cannot go on for ever. -/
theorem wellFounded_step (answers : Dialogue.Answering σ) (width : Nat) :
    WellFounded fun b' b : Buffered α σ => Step answers width b b' := by
  let dialogues (ds : List (Dialogue (Except Error α))) : Multiset (Dialogue (Except Error α)) := ds
  have hmiddle : ∀ before after d, dialogues (before ++ d :: after) =
      {d} + dialogues (before ++ after) := fun before after d =>
    Multiset.coe_eq_coe.mpr List.perm_middle
  have hsmaller : ∀ {b' b : Buffered α σ}, Step answers width b b' →
      Relation.CutExpand Dialogue.Rest (dialogues b'.waiting) (dialogues b.waiting) := by
    intro b' b h
    cases h with
    | @turn q next a s s' taken before after hopen answered =>
      show Relation.CutExpand Dialogue.Rest (dialogues (before ++ next a :: after))
        (dialogues (before ++ .ask q next :: after))
      rw [hmiddle, hmiddle]
      exact Relation.cutExpand_single_add ⟨q, next, a, rfl, rfl⟩ _
    | take taken value waiting s =>
      show Relation.CutExpand Dialogue.Rest (dialogues waiting)
        ({.done (.ok value)} + dialogues waiting)
      have hcut := (Relation.cutExpand_add_right (dialogues waiting)).mpr
        (Relation.cutExpand_zero (r := Dialogue.Rest) (x := Dialogue.done (.ok value)))
      rw [zero_add] at hcut
      exact hcut
  exact Subrelation.wf hsmaller (InvImage.wf _ Dialogue.wellFounded_rest.cutExpand)

/-! ## The invariant -/

/-- The results taken are the first ones of the list, the dialogues that wait end in the others,
and what answers them satisfies `Inv`. -/
structure Delivers (C : Contract) (Inv : σ → Prop) (results : List (Except Error α))
    (b : Buffered α σ) : Prop where
  rest : ∃ rest, b.taken.map .ok ++ rest = results ∧ Dialogue.EndIn C b.waiting rest
  state : Inv b.state

variable {C : Contract} {Inv : σ → Prop} {results : List (Except Error α)}

theorem Delivers.step (hkeeps : Dialogue.Keeps C answers Inv) (h : b.Delivers C Inv results)
    (hstep : Step answers width b b') : b'.Delivers C Inv results := by
  obtain ⟨⟨rest, hsplit, hends⟩, hstate⟩ := h
  cases hstep with
  | @turn q next a s s' taken before after hopen answered =>
    have hasked : C.asked q := hends.asked
    have hanswer := hkeeps s q a s' hstate hasked answered
    exact ⟨⟨rest, hsplit, hends.replace fun _ hd => hd.2 a hanswer.1⟩, hanswer.2⟩
  | take taken value waiting s =>
    cases hends with
    | @cons _ result _ rest hd hends =>
      have hresult : Except.ok value = result := hd
      refine ⟨⟨rest, ?_, hends⟩, hstate⟩
      show (taken ++ [value]).map .ok ++ rest = results
      rw [← hsplit, ← hresult]
      simp

theorem Delivers.of_reachable (hkeeps : Dialogue.Keeps C answers Inv)
    (h : b.Delivers C Inv results) (hreach : Relation.ReflTransGen (Step answers width) b b') :
    b'.Delivers C Inv results := by
  induction hreach with
  | refl => exact h
  | tail _ hstep ih => exact ih.step hkeeps hstep

/-- Results up to a failure come to the failure. -/
theorem mapM_id_of_taken (taken : List α) (rest : List (Except Error α)) :
    (taken.map Except.ok ++ rest).mapM id = (rest.mapM id).map (taken ++ ·) := by
  induction taken with
  | nil => cases h : rest.mapM id <;> simp [h, Except.map]
  | cons value taken ih =>
    rw [List.map_cons, List.cons_append, List.mapM_cons, ih]
    cases rest.mapM id with
    | error e => rfl
    | ok values => rfl

/-- At an end there are all results, or the first failure among them. -/
theorem Delivers.outcome (h : b.Delivers C Inv results) {outcome : Except Error (List α)}
    (hend : b.outcome? = some outcome) : outcome = results.mapM id := by
  obtain ⟨⟨rest, hsplit, hends⟩, -⟩ := h
  obtain ⟨taken, waiting, s⟩ := b
  rw [← hsplit, mapM_id_of_taken]
  rcases hends with _ | ⟨hd, hends⟩
  · cases hend
    show Except.ok taken = .ok (taken ++ [])
    rw [List.append_nil]
  · rename_i d result waiting rest
    rcases d with (e | value) | ⟨q, next⟩
    · cases hend
      have hresult : Except.error e = result := hd
      rw [← hresult]
      rfl
    · cases hend
    · cases hend

/-- Until the end there is always a next step. -/
theorem exists_step (hanswers : ∀ s q, ∃ a s', answers s q a s') (hwidth : 0 < width)
    (b : Buffered α σ) :
    (∃ outcome, b.outcome? = some outcome) ∨ ∃ b', Step answers width b b' := by
  obtain ⟨taken, waiting, s⟩ := b
  rcases waiting with _ | ⟨(e | value) | ⟨q, next⟩, waiting⟩
  · exact .inl ⟨_, rfl⟩
  · exact .inl ⟨_, rfl⟩
  · exact .inr ⟨_, .take taken value waiting s⟩
  · have hanswer := hanswers s q
    obtain ⟨a, s', hanswer⟩ := hanswer
    exact .inr ⟨_, .turn taken [] waiting hwidth hanswer⟩

/-! ## Every interleaving -/

/-- No interleaving comes to anything but the results in order or the first failure. -/
theorem outcome_of_reachable (hkeeps : Dialogue.Keeps C answers Inv)
    (h : b.Delivers C Inv results) (hreach : Relation.ReflTransGen (Step answers width) b b')
    {outcome : Except Error (List α)} (hend : b'.outcome? = some outcome) :
    outcome = results.mapM id := (h.of_reachable hkeeps hreach).outcome hend

/-- However the dialogues take turns, they come to the results in order or to the first
failure. -/
theorem inevitably_outcome (hkeeps : Dialogue.Keeps C answers Inv)
    (hanswers : ∀ s q, ∃ a s', answers s q a s') (hwidth : 0 < width)
    (h : b.Delivers C Inv results) :
    Inevitably (Step answers width) (fun b => b.outcome? = some (results.mapM id)) b := by
  refine .of_invariant (wellFounded_step answers width)
    (fun _ _ hb hstep => Delivers.step hkeeps hb hstep) (fun b hb => ?_) b h
  refine (exists_step hanswers hwidth b).imp_left fun hend => ?_
  obtain ⟨outcome, hend⟩ := hend
  rw [hend, hb.outcome hend]

/-- What every answer keeps holds in every state that an interleaving reaches. -/
theorem state_of_reachable (hkeeps : ∀ s q a s', Inv s → answers s q a s' → Inv s')
    (h : Inv b.state) (hreach : Relation.ReflTransGen (Step answers width) b b') :
    Inv b'.state := by
  induction hreach with
  | refl => exact h
  | tail _ hstep ih =>
    cases hstep with
    | turn taken before after hopen answered => exact hkeeps _ _ _ _ ih answered
    | take taken value waiting s => exact ih

end Buffered

end Custodian
