import Custodian.Proofs.Replay.Concurrency
import Custodian.Proofs.Replay.Failures

/-!
# Rates that are remembered stay

A memo stands in front of a directory of rates that may change and fail at any time. Whatever
happens, the memo has, of each scope and asset, the first usable rate that the directory offered
when it was called for (`Session.find?_after`): until then each call is answered as the directory
answers (`Session.Asks`), and from then on with that rate, without a look-up.
-/

namespace Custodian

/-! ## One call -/

theorem checkFraction_eq_error {fraction : Decimal}
    (h : ¬(.zero < fraction ∧ fraction ≤ .one)) :
    checkFraction fraction = .error (.custody (.invalidFeeFraction fraction)) := by
  unfold checkFraction
  rw [not_and_or] at h
  exact if_pos (h.imp Int.not_lt.mp Int.not_le.mp)

namespace RateMemo

variable {scope asset : String}

/-- The rate that the directory answers with, if it is in `(0, 1]`. -/
def usable? : Except Error (Option Decimal) → Option Decimal
  | .ok (some fraction) => if .zero < fraction ∧ fraction ≤ .one then some fraction else none
  | _ => none

theorem usable?_eq_some_iff {answer : Except Error (Option Decimal)} {fraction : Decimal} :
    usable? answer = some fraction ↔
      answer = .ok (some fraction) ∧ .zero < fraction ∧ fraction ≤ .one := by
  rcases answer with e | _ | found
  · exact ⟨fun h => (nomatch h), fun h => (nomatch h.1)⟩
  · exact ⟨fun h => (nomatch h), fun h => (nomatch h.1)⟩
  · show (if .zero < found ∧ found ≤ .one then some found else none) = some fraction ↔ _
    by_cases hrange : .zero < found ∧ found ≤ .one
    · rw [if_pos hrange]
      constructor
      · intro h
        cases h
        exact ⟨rfl, hrange⟩
      · rintro ⟨h, -⟩
        cases h
        rfl
    · rw [if_neg hrange]
      refine ⟨fun h => (nomatch h), ?_⟩
      rintro ⟨h, hin⟩
      cases h
      exact absurd hin hrange

/-- A call succeeds exactly with a usable rate. -/
theorem judge_eq_ok_iff_usable? {answer : Except Error (Option Decimal)} {fraction : Decimal} :
    judge scope asset answer = .ok fraction ↔ usable? answer = some fraction := by
  rw [judge_eq_ok_iff, usable?_eq_some_iff, checkFraction_eq_ok_iff]

/-- After a call the memo has the rate of the call, if there is one, and its other rates. -/
theorem find?_learn_judge (m : RateMemo) (answer : Except Error (Option Decimal))
    (h : m.find? scope asset = none) (scope' asset' : String) :
    (m.learn scope asset (judge scope asset answer)).find? scope' asset' =
      if scope' = scope ∧ asset' = asset then usable? answer else m.find? scope' asset' := by
  rcases hjudge : judge scope asset answer with e | fraction
  · have hnone : usable? answer = none := by
      rw [Option.eq_none_iff_forall_ne_some]
      intro fraction husable
      rw [judge_eq_ok_iff_usable?.mpr husable] at hjudge
      cases hjudge
    rw [learn, hnone]
    split
    · rename_i hsame
      rw [hsame.1, hsame.2, h]
    · rfl
  · rw [learn, find?_insert, judge_eq_ok_iff_usable?.mp hjudge]

end RateMemo

namespace Session

variable {σ : Type} {stores : Stores σ} {s : Session (Watched σ)} {scope asset : String}

/-- What the directory would answer a look-up now. -/
def offer (stores : Stores σ) (s : Session (Watched σ)) (scope asset : String) :
    Except Error (Option Decimal) := ((stores.rate scope asset).run s.stores.state).1

/-- A call for a rate. -/
def resolve (stores : Stores σ) (scope asset : String) :
    StateM (Session (Watched σ)) (Except Error Decimal) :=
  answer stores.watched (.rate scope asset)

/-- A rate that is remembered is given out, and nothing changes. -/
theorem resolve_of_known {fraction : Decimal} (h : s.memo.find? scope asset = some fraction) :
    (resolve stores scope asset).run s = (.ok fraction, s) := by
  show (let ((result, memo), state) :=
      (s.memo.resolve stores.watched scope asset).run s.stores
    ((result, ⟨memo, state⟩) : Except Error Decimal × Session (Watched σ))) = _
  unfold RateMemo.resolve
  rw [h]
  rfl

/-- Any other rate is looked up once, judged and learnt. -/
theorem resolve_of_new (h : s.memo.find? scope asset = none) :
    ∃ state, (resolve stores scope asset).run s =
      (RateMemo.judge scope asset (offer stores s scope asset),
        ⟨s.memo.learn scope asset (RateMemo.judge scope asset (offer stores s scope asset)),
          ⟨state, (scope, asset) :: s.stores.lookups⟩⟩) := by
  obtain ⟨state, hplain, -⟩ := RateMemo.resolve_of_new stores h s.stores.state
  have hwatched := s.memo.resolve_watched stores s.stores scope asset
  simp only [hplain, h, Option.isSome_none, Bool.false_eq_true, if_false] at hwatched
  refine ⟨state, ?_⟩
  show (let ((result, memo), state) :=
      (s.memo.resolve stores.watched scope asset).run s.stores
    ((result, ⟨memo, state⟩) : Except Error Decimal × Session (Watched σ))) = _
  rw [hwatched]
  rfl

/-- How a call is answered for a rate that is not remembered: as the directory answers the one
look-up that is made. Only a success is remembered, and only for what was called for. -/
structure Asks (stores : Stores σ) (s : Session (Watched σ)) (scope asset : String)
    (result : Except Error Decimal) (s' : Session (Watched σ)) : Prop where
  usable : ∀ fraction, offer stores s scope asset = .ok (some fraction) →
    .zero < fraction ∧ fraction ≤ .one → result = .ok fraction
  outOfRange : ∀ fraction, offer stores s scope asset = .ok (some fraction) →
    ¬(.zero < fraction ∧ fraction ≤ .one) →
    result = .error (.custody (.invalidFeeFraction fraction))
  missing : offer stores s scope asset = .ok none →
    result = .error (.custody (.billingNotFound scope asset))
  failed : ∀ e, offer stores s scope asset = .error e → result = .error e
  lookedUp : s'.stores.lookups = (scope, asset) :: s.stores.lookups
  forgets : ∀ e, result = .error e → s'.memo = s.memo
  learns : ∀ fraction, result = .ok fraction → ∀ scope' asset',
    s'.memo.find? scope' asset' =
      if scope' = scope ∧ asset' = asset then some fraction else s.memo.find? scope' asset'

theorem asks_of_new (h : s.memo.find? scope asset = none) :
    Asks stores s scope asset ((resolve stores scope asset).run s).1
      ((resolve stores scope asset).run s).2 := by
  obtain ⟨state, hrun⟩ := @resolve_of_new σ stores s scope asset h
  rw [hrun]
  constructor
  case usable =>
    intro fraction hoffer hrange
    rw [hoffer]
    have hcheck : checkFraction fraction = .ok () := checkFraction_eq_ok_iff.mpr hrange
    show RateMemo.judge scope asset (.ok (some fraction)) = .ok fraction
    exact RateMemo.judge_eq_ok_iff.mpr ⟨rfl, hcheck⟩
  case outOfRange =>
    intro fraction hoffer hrange
    rw [hoffer]
    show (checkFraction fraction).map (fun _ => fraction) = _
    rw [checkFraction_eq_error hrange]
    rfl
  case missing =>
    intro hoffer
    rw [hoffer]
    rfl
  case failed =>
    intro e hoffer
    rw [hoffer]
    rfl
  case lookedUp => rfl
  case forgets =>
    intro e hresult
    show s.memo.learn scope asset (RateMemo.judge scope asset (offer stores s scope asset)) = s.memo
    rw [show RateMemo.judge scope asset (offer stores s scope asset) = _ from hresult]
    rfl
  case learns =>
    intro fraction hresult scope' asset'
    show (s.memo.learn scope asset (RateMemo.judge scope asset
      (offer stores s scope asset))).find? scope' asset' = _
    rw [show RateMemo.judge scope asset (offer stores s scope asset) = _ from hresult,
      RateMemo.learn, RateMemo.find?_insert]

/-! ## Histories of calls -/

/-- What happens one after another: a rate is called for, on behalf of whatever account, or the
directory changes. -/
inductive RateEvent (σ : Type) where
  | call (scope asset : String)
  | change (f : σ → σ)

/-- What an event leaves. -/
def happen (stores : Stores σ) (s : Session (Watched σ)) : RateEvent σ → Session (Watched σ)
  | .call scope asset => ((resolve stores scope asset).run s).2
  | .change f => { s with stores := { s.stores with state := f s.stores.state } }

/-- What a history leaves. -/
def after (stores : Stores σ) (s : Session (Watched σ)) (history : List (RateEvent σ)) :
    Session (Watched σ) :=
  history.foldl (happen stores) s

/-- What the directory would have answered to each call for a rate, asked or not. -/
def offers (stores : Stores σ) (scope asset : String) :
    Session (Watched σ) → List (RateEvent σ) → List (Except Error (Option Decimal))
  | _, [] => []
  | s, .call scope' asset' :: history =>
    let rest := offers stores scope asset (happen stores s (.call scope' asset')) history
    if scope = scope' ∧ asset = asset' then offer stores s scope asset :: rest else rest
  | s, .change f :: history => offers stores scope asset (happen stores s (.change f)) history

/-- A call leaves what was remembered, or else what is offered if that is usable, and all rates that
it is not for. -/
theorem find?_happen_call (s : Session (Watched σ)) (scope asset scope' asset' : String) :
    (happen stores s (.call scope' asset')).memo.find? scope asset =
      if scope = scope' ∧ asset = asset'
      then (s.memo.find? scope asset).or (RateMemo.usable? (offer stores s scope asset))
      else s.memo.find? scope asset := by
  show ((resolve stores scope' asset').run s).2.memo.find? scope asset = _
  rcases hfind : s.memo.find? scope' asset' with _ | fraction
  · obtain ⟨state, hrun⟩ := @resolve_of_new σ stores s scope' asset' hfind
    rw [hrun]
    show (s.memo.learn scope' asset' _).find? scope asset = _
    rw [RateMemo.find?_learn_judge s.memo _ hfind]
    by_cases hsame : scope = scope' ∧ asset = asset'
    · obtain ⟨rfl, rfl⟩ := hsame
      rw [if_pos ⟨rfl, rfl⟩, if_pos ⟨rfl, rfl⟩, hfind, Option.none_or]
    · rw [if_neg hsame, if_neg hsame]
  · rw [resolve_of_known hfind]
    by_cases hsame : scope = scope' ∧ asset = asset'
    · obtain ⟨rfl, rfl⟩ := hsame
      rw [if_pos ⟨rfl, rfl⟩, hfind]
      rfl
    · rw [if_neg hsame]

/-- After any history the memo has what it had, or else the first usable offer. -/
theorem find?_after (scope asset : String) (s : Session (Watched σ))
    (history : List (RateEvent σ)) :
    (after stores s history).memo.find? scope asset =
      (s.memo.find? scope asset).or
        ((offers stores scope asset s history).findSome? RateMemo.usable?) := by
  induction history generalizing s with
  | nil => exact (Option.or_none).symm
  | cons event history ih =>
    show (after stores (happen stores s event) history).memo.find? scope asset = _
    rw [ih]
    cases event with
    | change f => rfl
    | call scope' asset' =>
      rw [find?_happen_call, offers]
      by_cases hsame : scope = scope' ∧ asset = asset'
      -- an offer counts only if nothing was remembered before it
      · rw [if_pos hsame, if_pos hsame, List.findSome?_cons]
        rcases RateMemo.usable? (offer stores s scope asset) with _ | fraction
        · rw [Option.or_none]
        · rw [Option.or_assoc]
          rfl
      · rw [if_neg hsame, if_neg hsame]

/-- What is remembered stays. -/
theorem find?_after_of_known {fraction : Decimal}
    (h : s.memo.find? scope asset = some fraction) (history : List (RateEvent σ)) :
    (after stores s history).memo.find? scope asset = some fraction := by
  rw [find?_after, h]
  rfl

/-- What a call has given is remembered. -/
theorem find?_of_resolve {fraction : Decimal}
    (h : ((resolve stores scope asset).run s).1 = .ok fraction) :
    ((resolve stores scope asset).run s).2.memo.find? scope asset = some fraction := by
  rcases hfind : s.memo.find? scope asset with _ | known
  · rw [(@asks_of_new σ stores s scope asset hfind).learns fraction h, if_pos ⟨rfl, rfl⟩]
  · rw [resolve_of_known hfind] at h ⊢
    cases h
    exact hfind

/-- However calls for rates and changes of the directory follow on each other, a memo that was empty
has of each scope and asset the first usable rate that was offered to a call for them, and no rate
outside `(0, 1]`. A call for a rate that it has not is answered by the directory, and only a success
is remembered. Once a call has given a rate, all later calls for it give the same and change
nothing, whatever comes in between. -/
theorem remembered_rates_stay (stores : Stores σ) (start : σ) (history : List (RateEvent σ)) :
    let s := after stores ⟨.empty, ⟨start, []⟩⟩ history
    (∀ scope asset, s.memo.find? scope asset =
      (offers stores scope asset ⟨.empty, ⟨start, []⟩⟩ history).findSome? RateMemo.usable?) ∧
    (∀ scope asset fraction, s.memo.find? scope asset = some fraction →
      .zero < fraction ∧ fraction ≤ .one) ∧
    (∀ scope asset, s.memo.find? scope asset = none →
      Asks stores s scope asset ((resolve stores scope asset).run s).1
        ((resolve stores scope asset).run s).2) ∧
    (∀ scope asset fraction, s.memo.find? scope asset = some fraction →
      (resolve stores scope asset).run s = (.ok fraction, s)) ∧
    ∀ scope asset fraction, ((resolve stores scope asset).run s).1 = .ok fraction →
      ∀ further, let later := after stores s (.call scope asset :: further)
        (resolve stores scope asset).run later = (.ok fraction, later) := by
  intro s
  have hmemo : ∀ scope asset, s.memo.find? scope asset =
      (offers stores scope asset ⟨.empty, ⟨start, []⟩⟩ history).findSome? RateMemo.usable? :=
    fun scope asset => find?_after scope asset _ history
  refine ⟨hmemo, fun scope asset fraction h => ?_, fun scope asset h => asks_of_new h,
    fun scope asset fraction h => resolve_of_known h, fun scope asset fraction h further => ?_⟩
  · rw [hmemo] at h
    obtain ⟨answer, -, husable⟩ := List.exists_of_findSome?_eq_some h
    exact (RateMemo.usable?_eq_some_iff.mp husable).2
  · exact resolve_of_known (find?_after_of_known (find?_of_resolve h) further)

/-- A rate that is missing at first, then out of range, then not to be had, is remembered once it is
usable: with the directory out of reach again it is given out still, while that of another asset is
not to be had. -/
theorem remembered_rate_outlasts_directory :
    let unreachable : Error := .database (.connectionFailed "refused")
    let directory : Stores (Except Error (Option Decimal)) :=
      { transfers := fun _ _ _ => pure (.error unreachable)
        accounts := fun _ _ => pure (.error unreachable)
        rate := fun _ _ => get
        snapshot := fun _ _ _ => pure (.error unreachable)
        append := fun _ => pure (.ok ())
        writesWait := pure false
        note := fun _ => pure () }
    let two : Decimal := ⟨false, 2, 0, by decide, by decide⟩
    let failures : List (RateEvent (Except Error (Option Decimal))) :=
      [.call "bank" "usd#bank", .change fun _ => .ok (some two), .call "bank" "usd#bank",
        .change fun _ => .error unreachable, .call "bank" "usd#bank",
        .change fun _ => .ok (some .one)]
    let s := after directory ⟨.empty, ⟨.ok none, []⟩⟩ failures
    let later := after directory s [.call "bank" "usd#bank", .change fun _ => .error unreachable]
    s.memo = .empty ∧ s.stores.lookups.length = 3 ∧
      (resolve directory "bank" "usd#bank").run later = (.ok .one, later) ∧
      later.stores.lookups.length = 4 ∧
      ((resolve directory "bank" "eur#bank").run later).1 = .error unreachable := by
  intro unreachable directory two failures s later
  obtain ⟨-, -, -, -, hstays⟩ := remembered_rates_stay directory (.ok none) failures
  obtain ⟨-, -, hasks, -, -⟩ := remembered_rates_stay directory (.ok none)
    (failures ++ [.call "bank" "usd#bank", .change fun _ => .error unreachable])
  refine ⟨by decide, by decide, ?_, by decide, ?_⟩
  · exact hstays "bank" "usd#bank" .one (by decide) [.change fun _ => .error unreachable]
  · exact (hasks "bank" "eur#bank" (by decide)).failed unreachable rfl

end Session

end Custodian
