import Custodian.Proofs.Dialogue.Contract
import Mathlib.Data.List.Basic

/-!
# Dialogues with an oracle

An oracle has one answer to each question, given once and for all. A dialogue with an oracle has a
value, asks certain questions, and records certain snapshots: those whose recording the oracle
confirms. For an attempt value and recordings together are its `Attempt.effect`.

Three things live here:

* the rules for sequences (`value_bind`, `asked_bind`, `effect_bind`), with which a dialogue is
  taken apart;
* `Ensures.value` and `Ensures.asked`, which bring what is ensured under a contract to every
  oracle that keeps it;
* `Dialogue.Alike`: two dialogues that ask the same questions whatever they are answered. With
  every oracle they record the same.
-/

namespace Custodian

/-- One answer to each question. -/
abbrev Oracle := (q : Question) → q.Answer

/-- The snapshot that a question records, if the oracle confirms it. -/
def Oracle.recorded? (O : Oracle) : Question → Option Snapshot
  | .append snapshot =>
    match O (.append snapshot) with
    | .ok _ => some snapshot
    | .error _ => none
  | _ => none

namespace Dialogue

variable {α β : Type} {C : Contract} {post : α → Prop} (O : Oracle)

/-- How a dialogue with an oracle ends. -/
def value : Dialogue α → α
  | done value => value
  | ask q next => (next (O q)).value

/-- The questions that a dialogue asks an oracle, in order. -/
def asked : Dialogue α → List Question
  | done _ => []
  | ask q next => q :: (next (O q)).asked

/-- The snapshots that a dialogue records, in order. -/
def recorded (d : Dialogue α) : List Snapshot := (d.asked O).filterMap O.recorded?

@[simp] theorem value_bind (d : Dialogue β) (f : β → Dialogue α) :
    (d >>= f).value O = (f (d.value O)).value O := by
  show (d.bind f).value O = _
  induction d with
  | done value => rfl
  | ask q next ih => exact ih (O q)

@[simp] theorem asked_bind (d : Dialogue β) (f : β → Dialogue α) :
    (d >>= f).asked O = d.asked O ++ (f (d.value O)).asked O := by
  show (d.bind f).asked O = _
  induction d with
  | done value => rfl
  | ask q next ih => exact congrArg (q :: ·) (ih (O q))

@[simp] theorem recorded_bind (d : Dialogue β) (f : β → Dialogue α) :
    (d >>= f).recorded O = d.recorded O ++ (f (d.value O)).recorded O := by
  unfold recorded
  rw [asked_bind, List.filterMap_append]

theorem value_question (q : Question) : (question q).value O = O q := rfl

theorem recorded_question (q : Question) :
    (question q).recorded O = (O.recorded? q).toList := by
  show List.filterMap O.recorded? [q] = _
  rw [List.filterMap_cons, List.filterMap_nil]
  cases O.recorded? q <;> rfl

variable {O}

/-- An oracle that keeps a contract gets what is ensured under it. -/
theorem Ensures.value {d : Dialogue α} (h : d.Ensures C post)
    (hO : ∀ q, C.asked q → C.allowed q (O q)) : post (d.value O) := by
  induction d with
  | done value => exact h
  | ask q next ih => exact ih (O q) (h.2 _ (hO q h.1))

/-- Such an oracle is asked only what may be asked. -/
theorem Ensures.asked {d : Dialogue α} (h : d.Ensures C post)
    (hO : ∀ q, C.asked q → C.allowed q (O q)) : ∀ q ∈ d.asked O, C.asked q := by
  induction d with
  | done value =>
    intro q hq
    cases hq
  | ask q next ih =>
    intro q' hq'
    rcases List.mem_cons.mp hq' with rfl | hq'
    · exact h.1
    · exact ih (O q) (h.2 _ (hO q h.1)) q' hq'

/-- Only the answers to the questions that are asked matter. -/
theorem eq_of_agree {O' : Oracle} (d : Dialogue α) (h : ∀ q ∈ d.asked O, O q = O' q) :
    d.value O' = d.value O ∧ d.asked O' = d.asked O := by
  induction d with
  | done value => exact ⟨rfl, rfl⟩
  | ask q next ih =>
    have hq : O q = O' q := h q List.mem_cons_self
    have hnext := ih (O q) fun q' hq' => h q' (List.mem_cons_of_mem _ hq')
    simp only [Dialogue.value, Dialogue.asked, ← hq]
    exact ⟨hnext.1, by rw [hnext.2]⟩

/-! ## Dialogues that ask the same -/

/-- Whatever two dialogues are answered, they ask the same questions, and their ends are
related. -/
inductive Alike (R : α → β → Prop) : Dialogue α → Dialogue β → Prop
  | done {a : α} {b : β} (h : R a b) : Alike R (done a) (done b)
  | ask (q : Question) {next : q.Answer → Dialogue α} {next' : q.Answer → Dialogue β}
      (h : ∀ a, Alike R (next a) (next' a)) : Alike R (ask q next) (ask q next')

namespace Alike

variable {α' β' : Type} {R : α → β → Prop} {S : α' → β' → Prop} {d : Dialogue α}
  {d' : Dialogue β}

/-- Every dialogue asks the same as itself. -/
theorem refl (d : Dialogue α) : Alike Eq d d := by
  induction d with
  | done value => exact .done rfl
  | ask q next ih => exact .ask q ih

theorem mono {R' : α → β → Prop} (h : Alike R d d') (himp : ∀ a b, R a b → R' a b) :
    Alike R' d d' := by
  induction h with
  | done h => exact .done (himp _ _ h)
  | ask q _ ih => exact .ask q ih

theorem bind {f : α → Dialogue α'} {g : β → Dialogue β'} (h : Alike R d d')
    (hnext : ∀ a b, R a b → Alike S (f a) (g b)) : Alike S (d >>= f) (d' >>= g) := by
  induction h with
  | done h => exact hnext _ _ h
  | ask q _ ih => exact .ask q ih

/-- With an oracle they ask the same. -/
theorem asked (h : Alike R d d') : d.asked O = d'.asked O ∧ R (d.value O) (d'.value O) := by
  induction h with
  | done h => exact ⟨rfl, h⟩
  | ask q _ ih => exact ⟨congrArg (q :: ·) (ih (O q)).1, (ih (O q)).2⟩

end Alike

end Dialogue

/-! ## Attempts -/

namespace Attempt

variable {α β ι : Type} (O : Oracle)

/-- How an attempt with an oracle ends, and the snapshots that it records. -/
def effect (x : Attempt α) : Except Error α × List Snapshot := (x.run.value O, x.run.recorded O)

theorem effect_bind (x : Attempt β) (f : β → Attempt α) :
    (x >>= f).effect O =
      match x.effect O with
      | (.ok b, before) => ((f b).effect O).map id (before ++ ·)
      | (.error e, before) => (.error e, before) := by
  show (Dialogue.value O (x.run >>= ExceptT.bindCont f),
    Dialogue.recorded O (x.run >>= ExceptT.bindCont f)) = _
  rw [Dialogue.value_bind, Dialogue.recorded_bind]
  unfold effect
  rcases x.run.value O with e | b
  · exact Prod.ext rfl (List.append_nil _)
  · rfl

variable {O}

/-- A first part that succeeds goes over to the second. -/
theorem effect_bind_of_ok {x : Attempt β} {f : β → Attempt α} {b : β} {before : List Snapshot}
    (h : x.effect O = (.ok b, before)) :
    (x >>= f).effect O = (((f b).effect O).1, before ++ ((f b).effect O).2) := by
  rw [effect_bind, h]
  rfl

/-- Where the whole succeeds, both parts do. -/
theorem of_effect_bind {x : Attempt β} {f : β → Attempt α} {a : α} {all : List Snapshot}
    (h : (x >>= f).effect O = (.ok a, all)) :
    ∃ b before after, x.effect O = (.ok b, before) ∧ (f b).effect O = (.ok a, after) ∧
      all = before ++ after := by
  rw [effect_bind] at h
  rcases hx : x.effect O with ⟨e | b, before⟩
  · rw [hx] at h
    cases h
  · rw [hx] at h
    have hvalue : ((f b).effect O).1 = .ok a := congrArg Prod.fst h
    have hrecorded : before ++ ((f b).effect O).2 = all := congrArg Prod.snd h
    exact ⟨b, before, _, rfl, Prod.ext hvalue rfl, hrecorded.symm⟩

theorem effect_lift (d : Dialogue α) :
    effect O (ExceptT.lift d) = (.ok (d.value O), d.recorded O) := by
  show (Dialogue.value O (d >>= fun a => pure (Except.ok a)),
    Dialogue.recorded O (d >>= fun a => pure (Except.ok a))) = _
  rw [Dialogue.value_bind, Dialogue.recorded_bind]
  exact Prod.ext rfl (List.append_nil _)

theorem effect_question (q : Question) :
    (question q).effect O = (.ok (O q), (O.recorded? q).toList) :=
  (effect_lift _).trans (congrArg _ (Dialogue.recorded_question O q))

/-- Second parts with the same effect may be exchanged. -/
theorem effect_bind_congr (x : Attempt β) {f g : β → Attempt α}
    (h : ∀ b, (f b).effect O = (g b).effect O) : (x >>= f).effect O = (x >>= g).effect O := by
  rw [effect_bind, effect_bind]
  rcases x.effect O with ⟨e | b, before⟩
  · rfl
  · simp only [h]

/-- Only the answers to the questions that may be asked matter. -/
theorem Ensures.effect_eq {C : Contract} {post : α → Prop} {fail : Error → Prop} {x : Attempt α}
    {O' : Oracle} (h : x.Ensures C post fail) (hO : ∀ q, C.asked q → C.allowed q (O q))
    (hagree : ∀ q, C.asked q → O q = O' q) : x.effect O' = x.effect O := by
  have hasked := Dialogue.Ensures.asked h hO
  obtain ⟨hvalue, hquestions⟩ := Dialogue.eq_of_agree x.run fun q hq => hagree q (hasked q hq)
  refine Prod.ext hvalue ?_
  show List.filterMap O'.recorded? (x.run.asked O') = List.filterMap O.recorded? (x.run.asked O)
  rw [hquestions]
  refine List.filterMap_congr fun q hq => ?_
  unfold Oracle.recorded?
  cases q with
  | append snapshot =>
    have hanswer : O (.append snapshot) = O' (.append snapshot) := hagree _ (hasked _ hq)
    simp only [hanswer]
  | _ => rfl

/-- What is ensured under a contract that the oracle keeps. -/
theorem Ensures.of_effect {C : Contract} {post : α → Prop} {fail : Error → Prop} {x : Attempt α}
    (h : x.Ensures C post fail) (hO : ∀ q, C.asked q → C.allowed q (O q)) {a : α}
    {recorded : List Snapshot} (heffect : x.effect O = (.ok a, recorded)) : post a := by
  have hvalue : x.run.value O = .ok a := congrArg Prod.fst heffect
  have hend := Dialogue.Ensures.value h hO
  rw [hvalue] at hend
  exact hend

/-- Whatever two attempts are answered, they ask the same questions, and they end in related
values or in the same error. -/
def Alike (R : α → β → Prop) (x : Attempt α) (y : Attempt β) : Prop :=
  Dialogue.Alike
    (fun r r' => match r, r' with
      | .ok a, .ok b => R a b
      | .error e, .error e' => e = e'
      | _, _ => False) x.run y.run

namespace Alike

variable {α' β' : Type} {R : α → β → Prop} {S : α' → β' → Prop} {x : Attempt α} {y : Attempt β}

/-- Every attempt asks the same as itself. -/
theorem refl (x : Attempt α) : Alike Eq x x := by
  refine (Dialogue.Alike.refl x.run).mono fun r r' h => ?_
  subst h
  rcases r with e | a
  · rfl
  · rfl

theorem pure {a : α} {b : β} (h : R a b) : Alike R (Pure.pure a) (Pure.pure b) := .done h

theorem throw (e : Error) : Alike R (MonadExcept.throw e) (MonadExcept.throw e) := .done rfl

theorem lift {d : Dialogue α} {d' : Dialogue β} (h : Dialogue.Alike R d d') :
    Alike R (ExceptT.lift d) (ExceptT.lift d') :=
  h.bind fun _ _ hab => .done hab

theorem bind {f : α → Attempt α'} {g : β → Attempt β'} (h : Alike R x y)
    (hnext : ∀ a b, R a b → Alike S (f a) (g b)) : Alike S (x >>= f) (y >>= g) := by
  refine Dialogue.Alike.bind h fun r r' hr => ?_
  rcases r with e | a
  · rcases r' with e' | b
    · exact .done hr
    · exact hr.elim
  · rcases r' with e' | b
    · exact hr.elim
    · exact hnext a b hr

/-- With an oracle two such attempts record the same, and if one succeeds so does the other. -/
theorem effect (h : Alike R x y) {a : α} {recorded : List Snapshot}
    (hx : x.effect O = (.ok a, recorded)) : ∃ b, y.effect O = (.ok b, recorded) ∧ R a b := by
  obtain ⟨hasked, hends⟩ := Dialogue.Alike.asked (O := O) h
  have hvalue : x.run.value O = .ok a := congrArg Prod.fst hx
  have hrecorded : x.run.recorded O = recorded := congrArg Prod.snd hx
  rw [hvalue] at hends
  rcases hy : y.run.value O with e | b
  · rw [hy] at hends
    exact hends.elim
  · rw [hy] at hends
    refine ⟨b, Prod.ext hy ?_, hends⟩
    rw [← hrecorded]
    unfold Dialogue.recorded
    rw [hasked]
    rfl

end Alike

end Attempt

end Custodian
