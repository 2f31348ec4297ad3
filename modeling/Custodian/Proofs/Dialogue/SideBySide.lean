import Custodian.Proofs.Dialogue.Contract
import Custodian.Replay.SideBySide
import Mathlib.Data.List.Forall2

/-!
# Dialogues side by side ensure what each of them ensures

What a dialogue ensures does not depend on how far it is moved before others have their turn,
because a contract constrains every answer, whoever was asked in between. So if each of several
attempts ends as it may, all of them side by side come to what they come to in turn
(`Attempt.InTurn`): the list of their values, or the first failure among them, whatever the
width.
-/

namespace Custodian

namespace Dialogue

variable {α : Type} {C : Contract} {post : α → Prop}

/-- Stopping before a write leaves a dialogue that ensures the same. -/
theorem ensures_toWrite {d : Dialogue α} (h : d.Ensures C post) :
    d.toWrite.Ensures C fun d' => d'.Ensures C post := by
  induction d with
  | done value => exact h
  | ask q next ih =>
    rw [toWrite]
    split
    · exact h
    · exact ⟨h.1, fun a ha => ih a (h.2 a ha)⟩

/-- Making the write that a dialogue stands before leaves a dialogue that ensures the same. -/
theorem ensures_pastWrite {d : Dialogue α} (h : d.Ensures C post) :
    d.pastWrite.Ensures C fun d' => d'.Ensures C post := by
  cases d with
  | done value => exact h
  | ask q next =>
    rw [pastWrite]
    split
    · exact ⟨h.1, fun a ha => h.2 a ha⟩
    · exact h

/-- Each of several dialogues ends as a postcondition of its own says. -/
abbrev EndAs (C : Contract) (ds : List (Dialogue α)) (posts : List (α → Prop)) : Prop :=
  List.Forall₂ (fun d post => d.Ensures C post) ds posts

/-- Each of several dialogues ends in its own result. -/
abbrev EndIn (C : Contract) (ds : List (Dialogue α)) (results : List α) : Prop :=
  List.Forall₂ (fun d result => d.Ensures C (· = result)) ds results

/-- Moving the first few of several dialogues leaves each with its postcondition. -/
theorem ensures_moveFirst {move : Dialogue α → Dialogue (Dialogue α)}
    (hmove : ∀ {d : Dialogue α} {post : α → Prop}, d.Ensures C post →
      (move d).Ensures C fun d' => d'.Ensures C post) {posts : List (α → Prop)} :
    ∀ (n : Nat) {ds : List (Dialogue α)}, EndAs C ds posts →
      (moveFirst move n ds).Ensures C fun ds' => EndAs C ds' posts := by
  intro n
  induction n generalizing posts with
  | zero =>
    intro ds h
    rw [moveFirst_zero]
    exact h
  | succ n ih =>
    intro ds h
    cases h with
    | nil => exact .nil
    | cons hd hds =>
      rw [moveFirst, ensures_bind]
      refine (hmove hd).mono fun d' hd' => ?_
      rw [ensures_bind]
      exact (ih hds).mono fun ds' hds' => .cons hd' hds'

/-- The dialogue in front ends as it would alone, and those behind it keep their
postconditions. -/
theorem ensures_lead {behind : Nat} {posts : List (α → Prop)} {d : Dialogue α}
    (hd : d.Ensures C post) :
    ∀ {others : List (Dialogue α)}, EndAs C others posts →
      (d.lead behind others).Ensures C fun p => post p.1 ∧ EndAs C p.2 posts := by
  induction d with
  | done value => exact fun hothers => ⟨hd, hothers⟩
  | ask q next ih =>
    intro others hothers
    rw [lead]
    split
    · -- before the write the others come up to writes of their own, after it they make them
      rw [ensures_bind]
      refine (ensures_moveFirst ensures_toWrite behind hothers).mono fun others hothers => ?_
      refine ⟨hd.1, fun a ha => ?_⟩
      rw [ensures_bind]
      refine (ensures_moveFirst ensures_pastWrite behind hothers).mono fun others hothers => ?_
      exact ih a (hd.2 a ha) hothers
    · exact ⟨hd.1, fun a ha => ih a (hd.2 a ha) hothers⟩

end Dialogue

namespace Attempt

variable {α : Type} {C : Contract}

/-- What several attempts come to in turn, each ending as it may: all their values, or the first
failure. -/
inductive InTurn : List (Except Error α → Prop) → Except Error (List α) → Prop
  | nil : InTurn [] (.ok [])
  | value {post : Except Error α → Prop} {posts : List (Except Error α → Prop)} {a : α}
      {result : Except Error (List α)} (ends : post (.ok a)) (rest : InTurn posts result) :
      InTurn (post :: posts) (result.map (a :: ·))
  | failure {post : Except Error α → Prop} {posts : List (Except Error α → Prop)} {e : Error}
      (ends : post (.error e)) : InTurn (post :: posts) (.error e)

namespace InTurn

variable {posts : List (Except Error α → Prop)} {result : Except Error (List α)}

/-- Values are those of the attempts one by one, and a failure is that of one of them. -/
theorem ends (h : InTurn posts result) :
    Ends (List.Forall₂ (fun post a => post (.ok a)) posts)
      (fun e => ∃ post ∈ posts, post (.error e)) result := by
  induction h with
  | nil => exact .nil
  | @value _ _ _ result hvalue _ ih =>
    rcases result with e | values
    · obtain ⟨post, hpost, he⟩ := ih
      exact ⟨post, List.mem_cons_of_mem _ hpost, he⟩
    · exact .cons hvalue ih
  | failure he => exact ⟨_, List.mem_cons_self, he⟩

/-- Known results come to the list of them up to the first failure. -/
theorem eq_mapM {results : List (Except Error α)} (h : InTurn (results.map Eq) result) :
    result = results.mapM id := by
  induction results generalizing result with
  | nil =>
    cases h
    rfl
  | cons first results ih =>
    rw [List.map_cons] at h
    rw [List.mapM_cons]
    cases h with
    | value hvalue rest =>
      rw [ih rest, hvalue]
      rfl
    | failure he =>
      rw [he]
      rfl

end InTurn

/-- Results taken one after another are what the dialogues come to in turn. -/
theorem ensures_take (behind : Nat) {posts : List (Except Error α → Prop)} :
    ∀ {ds : List (Dialogue (Except Error α))}, Dialogue.EndAs C ds posts →
      Dialogue.Ensures C (InTurn posts) (take behind ds.length ds).run := by
  induction posts with
  | nil =>
    intro ds h
    cases h
    exact .nil
  | cons post posts ih =>
    intro ds h
    cases h with
    | @cons d _ ds _ hd hds =>
      rw [List.length_cons, take, ensures_run_iff, ensures_bind, ensures_lift]
      refine (Dialogue.ensures_lead hd hds).mono fun p hp => ?_
      obtain ⟨first, others⟩ := p
      obtain ⟨hfirst, hothers⟩ := hp
      rw [ensures_bind, ensures_ofExcept]
      cases first with
      | error e => exact InTurn.failure hfirst
      | ok value =>
        have hlength : ds.length = others.length := hds.length_eq.trans hothers.length_eq.symm
        rw [ends_ok, ensures_bind, hlength]
        exact (ensures_run_iff.mp (ih hothers)).mono (fun values h => InTurn.value hfirst h)
          fun e h => InTurn.value hfirst h

/-- Attempts side by side come to what they come to in turn. -/
theorem ensures_inTurn_sideBySide {width : Nat} {attempts : List (Attempt α)}
    {posts : List (Except Error α → Prop)}
    (h : List.Forall₂ (fun x post => Dialogue.Ensures C post x.run) attempts posts) :
    Dialogue.Ensures C (InTurn posts) (sideBySide width attempts).run := by
  have hds : Dialogue.EndAs C (attempts.map ExceptT.run) posts := by
    rw [Dialogue.EndAs, List.forall₂_map_left_iff]
    exact h
  have htake := ensures_take (width - 1) hds
  rwa [List.length_map] at htake

/-- Attempts side by side come to what they come to one after another. -/
theorem ensures_sideBySide {width : Nat} {attempts : List (Attempt α)}
    {results : List (Except Error α)}
    (h : List.Forall₂ (fun x result => Dialogue.Ensures C (· = result) x.run) attempts results) :
    Dialogue.Ensures C (· = results.mapM id) (sideBySide width attempts).run := by
  have hposts : List.Forall₂
      (fun (x : Attempt α) post => Dialogue.Ensures C post x.run) attempts (results.map Eq) := by
    rw [List.forall₂_map_right_iff]
    exact h.imp fun x result hx => hx.mono fun r hr => hr.symm
  exact (ensures_inTurn_sideBySide hposts).mono fun r hr => hr.eq_mapM

end Attempt

end Custodian
