import Custodian.Proofs.Database.Lookups
import Custodian.Proofs.Dialogue.Transcript
import Custodian.Proofs.Replay.Accuracy
import Custodian.Proofs.Replay.ControlPoint
import Custodian.Proofs.Snapshot.Seeding
import Custodian.Stores.Memory

/-!
# Which snapshots a walk leaves

A walk knows of the snapshot that a replay starts from and of those that it has recorded itself.
A new one is due only where the newest known one lags behind by more than the staleness threshold,
so whatever the stores answer, known snapshots of an asset are further apart than that
(`Walk.Spaced`). The replay of an asset carries the newest one along (`Walk.Informed`): it is not
touched by recordings that fail, and those are tried again when the control point moves on.

At the end of the window each reported asset is compared once more. If no recording has failed,
then one that does not lag behind is known of each of them (`Walk.Covered`). Neither the order of
the stamps nor the content of any store matters here.
-/

namespace Custodian

-- Powers of integers are those of the core library, whatever else is in scope; for that a
-- numeral as an exponent has its type.
attribute [local instance(1100)] instPowNat

/-! ## Clamped lengths of time -/

theorem Time.toInt_clamp (n : Int) :
    (Time.clamp n).toInt = max (-2 ^ (63 : Nat)) (min (2 ^ (63 : Nat) - 1) n) := by
  unfold clamp
  rw [Int64.toInt_ofInt_of_le]
  · omega
  · omega

/-- What is less than a clamped difference is less than the difference. -/
theorem Time.lt_sub_of_lt_minusClamped {a b d : Int64} (h : d < minusClamped a b) :
    d.toInt < a.toInt - b.toInt := by
  have hlow := d.le_toInt
  rw [Int64.lt_iff_toInt_lt, minusClamped, toInt_clamp] at h
  omega

/-- An instant does not lag behind itself. -/
theorem Time.minusClamped_self_le {a d : Int64} (h : 0 ≤ d.toInt) : minusClamped a a ≤ d := by
  rw [Int64.le_iff_toInt_le, minusClamped, toInt_clamp]
  omega

/-- The staleness threshold of settings that pass the check is not negative. -/
theorem Config.staleness_nonneg {c : Config} (h : c.check = .ok ()) : 0 ≤ c.staleness.toInt := by
  obtain ⟨hperiod, hmultiplier, -⟩ := bounds_of_check h
  rw [Int64.lt_iff_toInt_lt, Int64.toInt_zero] at hperiod
  rw [Int64.le_iff_toInt_le, Int64.toInt_zero] at hmultiplier
  have hproduct := Int.mul_nonneg (Int.le_of_lt hperiod) hmultiplier
  rw [staleness, Time.timesClamped, Time.toInt_clamp]
  omega

/-! ## Snapshots in a transcript -/

namespace Exchange

/-- The control point of a snapshot of an asset that an exchange makes known: it was found, or it
was recorded. -/
def known? (asset : String) : Exchange → Option Int64
  | ⟨.snapshot _ about _, .ok (some snapshot)⟩ =>
    if about = asset then some snapshot.control else none
  | ⟨.append snapshot, .ok ()⟩ => if snapshot.asset = asset then some snapshot.control else none
  | _ => none

/-- The control point of a snapshot of an asset that was recorded. -/
def recorded? (asset : String) : Exchange → Option Int64
  | ⟨.append snapshot, .ok ()⟩ => if snapshot.asset = asset then some snapshot.control else none
  | _ => none

/-- Whether a recording has failed. -/
def failsRecording : Exchange → Bool
  | ⟨.append _, .error _⟩ => true
  | _ => false

end Exchange

namespace Transcript

variable {log log' : Transcript} {asset : String}

/-- The control points of the snapshots of an asset that are known, in the order in which they
became so. -/
def known (log : Transcript) (asset : String) : List Int64 := log.filterMap (Exchange.known? asset)

/-- The control points of the snapshots of an asset that were recorded. -/
def recorded (log : Transcript) (asset : String) : List Int64 :=
  log.filterMap (Exchange.recorded? asset)

/-- No recording has failed. -/
def AllRecorded (log : Transcript) : Prop := ∀ x ∈ log, x.failsRecording = false

instance (log : Transcript) : Decidable log.AllRecorded :=
  inferInstanceAs (Decidable (∀ x ∈ log, x.failsRecording = false))

theorem known_append : known (log ++ log') asset = log.known asset ++ log'.known asset :=
  List.filterMap_append

theorem recorded_append :
    recorded (log ++ log') asset = log.recorded asset ++ log'.recorded asset :=
  List.filterMap_append

/-- A snapshot that is recorded becomes known. -/
theorem known_cons_of_append {snapshot : Snapshot} (hasset : snapshot.asset = asset) :
    known (⟨.append snapshot, .ok ()⟩ :: log) asset = snapshot.control :: log.known asset :=
  List.filterMap_cons_some (if_pos hasset)

theorem recorded_cons_of_append {snapshot : Snapshot} (hasset : snapshot.asset = asset) :
    recorded (⟨.append snapshot, .ok ()⟩ :: log) asset = snapshot.control :: log.recorded asset :=
  List.filterMap_cons_some (if_pos hasset)

theorem AllRecorded.of_append (h : AllRecorded (log ++ log')) : log.AllRecorded :=
  fun x hx => h x (List.mem_append_left log' hx)

/-- What is recorded is known. -/
theorem recorded_sublist_known (log : Transcript) (asset : String) :
    (log.recorded asset).Sublist (log.known asset) := by
  induction log with
  | nil => exact .slnil
  | cons x log ih =>
    have hx : ∀ control, x.recorded? asset = some control → x.known? asset = some control := by
      intro control h
      unfold Exchange.recorded? at h
      split at h
      · exact h
      · cases h
    unfold recorded known
    rcases hrecorded : x.recorded? asset with _ | control
    · rw [List.filterMap_cons_none hrecorded]
      rcases hknown : x.known? asset with _ | control
      · rw [List.filterMap_cons_none hknown]
        exact ih
      · rw [List.filterMap_cons_some hknown]
        exact ih.cons control
    · rw [List.filterMap_cons_some hrecorded, List.filterMap_cons_some (hx control hrecorded)]
      exact ih.cons_cons control

/-- Exchanges that make nothing known of an asset record nothing of it either. -/
theorem append_of_silent (h : log'.known asset = []) :
    known (log ++ log') asset = log.known asset ∧
      recorded (log ++ log') asset = log.recorded asset := by
  have hsublist := recorded_sublist_known log' asset
  rw [h, List.sublist_nil] at hsublist
  rw [known_append, recorded_append, h, hsublist, List.append_nil, List.append_nil]
  exact ⟨rfl, rfl⟩

/-- Questions about one asset make no snapshot of another one known. -/
theorem silent_of_concerns {w : Walk} {other : String} (hother : other ≠ asset)
    (hlog : ∀ x ∈ log, w.Concerns asset x.question) : log.known other = [] := by
  unfold known
  rw [List.filterMap_eq_nil_iff]
  intro x hx
  have hconcerns := hlog x hx
  unfold Exchange.known?
  split
  · rw [if_neg]
    rintro rfl
    exact hother hconcerns.2.1
  · rw [if_neg]
    rintro rfl
    exact hother hconcerns.2.1
  · rfl

end Transcript

namespace Walk

variable {w : Walk} {book b : AccountBook} {asset : String} {t : Transfer} {log log' : Transcript}
  {st : AssetState}

/-! ## One asset -/

/-- Known snapshots of an asset are more than the staleness threshold apart, each from the one
before it, and those that were recorded lie in the window. -/
structure Spaced (w : Walk) (asset : String) (log : Transcript) : Prop where
  apart : (log.known asset).Pairwise fun seen control =>
    w.config.staleness.toInt < control.toInt - seen.toInt
  within : ∀ control ∈ log.recorded asset,
    w.window.start < control ∧ control ≤ w.window.stop

/-- The replay of an asset knows of the newest snapshot that is known, and stands in the window.
Before it is opened none is known. -/
structure Informed (w : Walk) (asset : String) (log : Transcript) (book : AccountBook) : Prop where
  fresh : book.find? asset = none → book.isSkipped asset = false → log.known asset = []
  newest : ∀ st, book.find? asset = some st → st.lastSnapshotAt = (log.known asset).getLast?
  stands : ∀ st, book.find? asset = some st →
    w.window.start ≤ st.context.control ∧ st.context.control ≤ w.window.stop

/-- A snapshot of an asset is known that does not lag behind an instant by more than the staleness
threshold. -/
def Current (w : Walk) (asset : String) (time : Int64) (log : Transcript) : Prop :=
  ∃ seen ∈ log.known asset, Time.minusClamped time seen ≤ w.config.staleness

/-- Exchanges that make nothing known of an asset keep its snapshots apart. -/
theorem Spaced.append_of_silent (h : w.Spaced asset log) (hsilent : log'.known asset = []) :
    w.Spaced asset (log ++ log') := by
  obtain ⟨hknown, hrecorded⟩ := @Transcript.append_of_silent log log' asset hsilent
  exact ⟨hknown ▸ h.apart, hrecorded ▸ h.within⟩

/-- A snapshot that is due is further behind every known one than the staleness threshold. -/
theorem Spaced.apart_of_due (hconfig : w.config.check = .ok ()) (h : w.Spaced asset log)
    {control : Int64} (hdue : w.policy.shouldWrite (log.known asset).getLast? control = true) :
    ∀ seen ∈ log.known asset, w.config.staleness.toInt < control.toInt - seen.toInt := by
  have hapart := h.apart
  have hnonneg := Config.staleness_nonneg hconfig
  generalize log.known asset = known at hapart hdue ⊢
  rcases List.eq_nil_or_concat known with rfl | ⟨earlier, last, rfl⟩
  · exact fun seen hseen => (nomatch hseen)
  · rw [List.concat_eq_append] at hapart hdue ⊢
    rw [List.getLast?_concat] at hdue
    have hlast : w.config.staleness.toInt < control.toInt - last.toInt :=
      Time.lt_sub_of_lt_minusClamped (of_decide_eq_true (Bool.and_eq_true_iff.mp hdue).2)
    intro seen hseen
    rcases List.mem_append.mp hseen with hseen | hseen
    · -- an older one is behind the newest one
      have hbefore :=
        (List.pairwise_append.mp hapart).2.2 seen hseen last (List.mem_singleton_self _)
      omega
    · rw [List.mem_singleton.mp hseen]
      exact hlast

/-- A recording of a snapshot that is due keeps known snapshots apart. -/
theorem Spaced.record (h : w.Spaced asset log) {snapshot : Snapshot}
    (hasset : snapshot.asset = asset)
    (hapart : ∀ seen ∈ log.known asset,
      w.config.staleness.toInt < snapshot.control.toInt - seen.toInt)
    (hstart : w.window.start < snapshot.control) (hstop : snapshot.control ≤ w.window.stop) :
    w.Spaced asset (log ++ [⟨.append snapshot, .ok ()⟩]) ∧
      Transcript.known (log ++ [⟨.append snapshot, .ok ()⟩]) asset =
        log.known asset ++ [snapshot.control] := by
  have hknown : Transcript.known [⟨.append snapshot, .ok ()⟩] asset = [snapshot.control] :=
    Transcript.known_cons_of_append hasset
  have hrecorded : Transcript.recorded [⟨.append snapshot, .ok ()⟩] asset = [snapshot.control] :=
    Transcript.recorded_cons_of_append hasset
  rw [Transcript.known_append, hknown]
  refine ⟨⟨?_, ?_⟩, rfl⟩
  · rw [Transcript.known_append, hknown, List.pairwise_append]
    refine ⟨h.apart, List.pairwise_singleton _ _, fun seen hseen control hcontrol => ?_⟩
    rw [List.mem_singleton.mp hcontrol]
    exact hapart seen hseen
  · rw [Transcript.recorded_append, hrecorded]
    intro control hcontrol
    rcases List.mem_append.mp hcontrol with hcontrol | hcontrol
    · exact h.within control hcontrol
    · rw [List.mem_singleton.mp hcontrol]
      exact ⟨hstart, hstop⟩

/-- A checkpoint records a snapshot only where one is due, and gives back what is newest then. If
no recording fails, one that is current is known afterwards. -/
theorem leaves_checkpoint (hconfig : w.config.check = .ok ()) (h : w.Spaced asset log)
    {settled : Context} (hstart : w.window.start < settled.control)
    (hstop : settled.control ≤ w.window.stop) :
    (w.checkpoint asset settled (log.known asset).getLast?).Leaves
      (fun written log' => w.Spaced asset log' ∧
        written.or (log.known asset).getLast? = (log'.known asset).getLast? ∧
        (w.config.snapshotsEnabled = true → log'.AllRecorded →
          w.Current asset settled.control log')) log := by
  unfold checkpoint
  split
  · rename_i hdue
    rw [Dialogue.leaves_bind, Dialogue.leaves_question]
    intro answer
    rcases answer with e | ⟨⟩
    · -- a recording that fails changes nothing but that it has failed
      rw [Dialogue.leaves_bind]
      refine fun (_ : Unit) => ?_
      rw [List.append_assoc]
      have hsilent : Transcript.known ([⟨.append (settled.snapshot w.account asset), .error e⟩] ++
          [⟨.note (.snapshotWriteFailed w.account asset settled.control e), ()⟩]) asset = [] := rfl
      refine ⟨h.append_of_silent hsilent,
        congrArg List.getLast? (Transcript.append_of_silent hsilent).1.symm, fun _ hall => ?_⟩
      have hfailed : true = false := hall _ (List.mem_append_right log List.mem_cons_self)
      cases hfailed
    · have hasset : (settled.snapshot w.account asset).asset = asset := rfl
      obtain ⟨hspaced, hknown⟩ := h.record hasset (h.apart_of_due hconfig hdue) hstart hstop
      refine ⟨hspaced, ?_, fun _ _ => ?_⟩
      · rw [hknown, List.getLast?_concat]
        rfl
      · refine ⟨settled.control, ?_, ?_⟩
        · rw [hknown]
          exact List.mem_append_right _ (List.mem_singleton_self _)
        · exact Time.minusClamped_self_le (Config.staleness_nonneg hconfig)
  · rename_i hnot
    rw [Dialogue.leaves_pure]
    refine ⟨h, rfl, fun henabled _ => ?_⟩
    rcases hlast : (log.known asset).getLast? with _ | seen
    · rw [hlast] at hnot
      exact absurd (Bool.and_eq_true_iff.mpr ⟨henabled, rfl⟩) hnot
    · rw [hlast] at hnot
      refine ⟨seen, List.mem_of_getLast? hlast, Int64.not_lt.mp fun hlt => hnot ?_⟩
      exact Bool.and_eq_true_iff.mpr ⟨henabled, decide_eq_true hlt⟩

/-- An asset that is left out is not opened again. -/
theorem informed_skip : w.Informed asset log (book.skip asset) := by
  have hnone : (book.skip asset).find? asset = none := by simp
  have hskipped : (book.skip asset).isSkipped asset = true := by simp
  refine ⟨fun _ hkept => ?_, fun st hst => ?_, fun st hst => ?_⟩
  · rw [hskipped] at hkept
    cases hkept
  · rw [hnone] at hst
    cases hst
  · rw [hnone] at hst
    cases hst

theorem informed_of_find (hfind : book.find? asset = some st)
    (hnewest : st.lastSnapshotAt = (log.known asset).getLast?)
    (hstands : w.window.start ≤ st.context.control ∧ st.context.control ≤ w.window.stop) :
    w.Informed asset log book := by
  refine ⟨fun hnone => ?_, fun st' hst' => ?_, fun st' hst' => ?_⟩
  · rw [hfind] at hnone
    cases hnone
  · rw [hfind] at hst'
    cases hst'
    exact hnewest
  · rw [hfind] at hst'
    cases hst'
    exact hstands

theorem leaves_omitOrFail (h : w.Spaced asset log) (e : Error) :
    (w.omitOrFail book asset e).Leaves
      (fun b log' => w.Spaced asset log' ∧ w.Informed asset log' b) (w.Spaced asset) log := by
  unfold omitOrFail
  split
  · rw [Attempt.leaves_lift, omitAsset, Dialogue.leaves_bind]
    exact fun (_ : Unit) => ⟨h.append_of_silent rfl, informed_skip⟩
  · rw [Attempt.leaves_throw]
    exact h

/-- A replay starts with the snapshot that it finds, if it finds one. -/
theorem leaves_seed (h : w.Spaced asset log) (hfresh : log.known asset = []) (fraction : Decimal) :
    (w.policy.seed w.account asset w.window fraction).Leaves
      (fun st log' => w.Spaced asset log' ∧ st.lastSnapshotAt = (log'.known asset).getLast? ∧
        st.context.control = w.window.start) log := by
  have hsilent : ∀ log' : Transcript, log'.known asset = [] →
      w.Spaced asset (log ++ log') ∧ none = (Transcript.known (log ++ log') asset).getLast? ∧
        w.window.start = w.window.start := by
    intro log' hlog'
    refine ⟨h.append_of_silent hlog', ?_, rfl⟩
    rw [Transcript.known_append, hfresh, hlog']
    rfl
  unfold SnapshotPolicy.seed
  split
  · rw [Dialogue.leaves_bind, Dialogue.leaves_question]
    intro answer
    rcases answer with e | _ | snapshot
    · rw [Dialogue.leaves_bind]
      refine fun (_ : Unit) => ?_
      rw [List.append_assoc]
      exact hsilent _ rfl
    · exact hsilent _ rfl
    · have hknown : Transcript.known
          [⟨.snapshot w.account asset w.window.start, .ok (some snapshot)⟩] asset =
            [snapshot.control] := List.filterMap_cons_some (if_pos rfl)
      refine ⟨⟨?_, ?_⟩, ?_, rfl⟩
      · rw [Transcript.known_append, hfresh, hknown]
        exact List.pairwise_singleton _ _
      · rw [Transcript.recorded_append]
        exact (List.append_nil (log.recorded asset)).symm ▸ h.within
      · rw [Transcript.known_append, hfresh, hknown]
        rfl
  · have hsame := hsilent [] rfl
    rw [List.append_nil] at hsame
    exact hsame

theorem leaves_openAsset (hwindow : w.window.Valid) (h : w.Spaced asset log)
    (hfresh : log.known asset = []) :
    (w.openAsset book asset).Leaves
      (fun b log' => w.Spaced asset log' ∧ w.Informed asset log' b) (w.Spaced asset) log := by
  unfold openAsset
  rw [Attempt.leaves_bind, Attempt.leaves_question]
  intro answer
  have hspaced : w.Spaced asset (log ++ [⟨.rate w.scope asset, answer⟩]) :=
    h.append_of_silent rfl
  rcases answer with e | fraction
  · exact leaves_omitOrFail hspaced e
  · have hfresh' : Transcript.known (log ++ [⟨.rate w.scope asset, .ok fraction⟩]) asset = [] := by
      rw [Transcript.known_append, hfresh]
      rfl
    show Attempt.Leaves _ _ (ExceptT.lift _ >>= _) _
    rw [Attempt.leaves_bind, Attempt.leaves_lift]
    refine (leaves_seed hspaced hfresh' fraction).mono fun st log' hst => ?_
    obtain ⟨hspaced', hnewest, hstart⟩ := hst
    have hfind : (book.insert asset st).find? asset = some st := by simp
    refine ⟨hspaced', informed_of_find hfind hnewest ⟨Int64.le_of_eq hstart.symm, ?_⟩⟩
    rw [hstart]
    exact Int64.le_of_lt hwindow.1

/-- The replay of a transfer compares its asset's newest snapshot where the control point moves
on. -/
theorem leaves_replayOpen (hconfig : w.config.check = .ok ()) (h : w.Spaced t.asset log)
    (hinformed : w.Informed t.asset log book) (hfind : book.find? t.asset = some st)
    (hcounts : t.occurredAt < w.window.stop) :
    (w.replayOpen book st t).Leaves
      (fun b log' => w.Spaced t.asset log' ∧ w.Informed t.asset log' b) (w.Spaced t.asset) log := by
  obtain ⟨hstart, hreaches⟩ := hinformed.stands st hfind
  have hnewest := hinformed.newest st hfind
  unfold replayOpen
  split
  · exact ⟨h, hinformed⟩
  rcases hsettle : w.settleAndApply st t.occurredAt (t.deltaFor w.account) with
    e | ⟨settled, applied⟩
  · exact leaves_omitOrFail h e
  · obtain ⟨hforward, hcontrol⟩ := control_of_settleAndApply hsettle
    have hstop := control_le_of_settleAndApply hreaches hcounts hsettle
    have hstands : w.window.start ≤ applied.control ∧ applied.control ≤ w.window.stop :=
      ⟨hcontrol ▸ Int64.le_trans hstart hforward, hstop⟩
    have hmodified : (book.modify t.asset fun s => { s with context := applied }).find? t.asset =
        some { st with context := applied } := by simp [hfind]
    show Attempt.Leaves _ _ (ite _ _ _) _
    split
    · rename_i hmoved
      rw [Attempt.leaves_bind, Attempt.leaves_lift, hnewest]
      refine (leaves_checkpoint hconfig h (Int64.lt_of_le_of_lt hstart hmoved)
        (hcontrol ▸ hstop)).mono fun written log' hwritten => ?_
      obtain ⟨hspaced, hlast, -⟩ := hwritten
      rcases written with _ | control
      · exact ⟨hspaced, informed_of_find hmodified (hnewest.trans hlast) hstands⟩
      · let st' : AssetState := { st with context := applied, lastSnapshotAt := some control }
        have hrecorded :
            ((book.modify t.asset fun s => { s with context := applied }).modify t.asset
              fun s => { s with lastSnapshotAt := some control }).find? t.asset = some st' := by
          simp [hfind, st']
        exact ⟨hspaced, informed_of_find hrecorded hlast hstands⟩
    · exact ⟨h, informed_of_find hmodified hnewest hstands⟩

/-- One transfer, as far as its own asset goes. -/
theorem leaves_replay (hwindow : w.window.Valid) (hconfig : w.config.check = .ok ())
    (h : w.Spaced t.asset log) (hinformed : w.Informed t.asset log book)
    (hcounts : t.occurredAt < w.window.stop) :
    (w.replay book t).Leaves
      (fun b log' => w.Spaced t.asset log' ∧ w.Informed t.asset log' b) (w.Spaced t.asset) log := by
  rcases hskipped : book.isSkipped t.asset with _ | _
  · rcases hfind : book.find? t.asset with _ | st
    · rw [replay_of_new hskipped hfind, Attempt.leaves_bind]
      refine (leaves_openAsset hwindow h (hinformed.fresh hfind hskipped)).mono
        (fun b log' hb => ?_) fun _ he => he
      unfold resume
      rcases hopened : b.find? t.asset with _ | st
      · exact hb
      · exact leaves_replayOpen hconfig hb.1 hb.2 hopened hcounts
    · rw [replay_of_open hskipped hfind]
      exact leaves_replayOpen hconfig h hinformed hfind hcounts
  · rw [replay_of_skipped hskipped, Attempt.leaves_pure]
    exact ⟨h, hinformed⟩

/-- If no recording has failed, a snapshot of the asset is known that is current at the end of the
window. -/
def Covered (w : Walk) (asset : String) (log : Transcript) : Prop :=
  w.config.snapshotsEnabled = true → log.AllRecorded → w.Current asset w.window.stop log

/-- What is known stays known. -/
theorem Covered.append (h : w.Covered asset log) : w.Covered asset (log ++ log') := by
  intro henabled hall
  obtain ⟨seen, hseen, hcurrent⟩ := h henabled hall.of_append
  refine ⟨seen, ?_, hcurrent⟩
  rw [Transcript.known_append]
  exact List.mem_append_left _ hseen

/-- At the end of the window an asset that is reported is covered. -/
theorem leaves_finishAsset (hconfig : w.config.check = .ok ()) (hwindow : w.window.Valid)
    (h : w.Spaced asset log) (hnewest : st.lastSnapshotAt = (log.known asset).getLast?)
    (hstop : st.context.control ≤ w.window.stop) :
    (w.finishAsset asset st).Leaves
      (fun totals? log' => w.Spaced asset log' ∧ ∀ totals ∈ totals?, w.Covered asset log')
      (w.Spaced asset) log := by
  unfold finishAsset
  rcases hsettle : st.context.settle w.window w.window.stop st.fraction w.config.custodyPeriod with
    e | settled
  · dsimp only
    split
    · rw [Attempt.leaves_bind]
      exact fun (_ : Unit) => ⟨h.append_of_silent rfl, fun _ hnone => (nomatch hnone)⟩
    · exact h
  · have hat := Context.control_eq_of_settle hstop hsettle
    show Attempt.Leaves _ _ (ExceptT.lift _ >>= _) _
    rw [Attempt.leaves_bind, Attempt.leaves_lift, hnewest]
    refine (leaves_checkpoint hconfig h (hat ▸ hwindow.1) (hat ▸ Int64.le_refl _)).mono
      fun written log' hwritten => ?_
    obtain ⟨hspaced, -, hcurrent⟩ := hwritten
    rw [hat] at hcurrent
    exact ⟨hspaced, fun _ _ => hcurrent⟩

/-! ## All assets -/

/-- The book of a walk knows of the newest snapshots of all assets. -/
structure Checkpointed (w : Walk) (book : AccountBook) (log : Transcript) : Prop where
  inOrder : w.InOrder book
  spaced : ∀ asset, w.Spaced asset log
  informed : ∀ asset, w.Informed asset log book

theorem checkpointed_empty : w.Checkpointed (.empty w.account) [] :=
  ⟨inOrder_empty, fun _ => ⟨.nil, fun _ h => (nomatch h)⟩,
    fun _ => ⟨fun _ _ => rfl, fun _ h => (nomatch h), fun _ h => (nomatch h)⟩⟩

/-- Where nothing changes for an asset its replay stays informed. -/
theorem Informed.append_of_silent (h : w.Informed asset log book)
    (hsilent : log'.known asset = []) (hsame : AccountBook.AgreeOn asset book b) :
    w.Informed asset (log ++ log') b := by
  have hknown := (@Transcript.append_of_silent log log' asset hsilent).1
  refine ⟨?_, ?_, ?_⟩
  · rw [hknown, ← hsame.state, ← hsame.skipped]
    exact h.fresh
  · rw [hknown, ← hsame.state]
    exact h.newest
  · rw [← hsame.state]
    exact h.stands

/-- Exchanges that make nothing known leave everything as it is. -/
theorem Checkpointed.append_of_silent (h : w.Checkpointed book log)
    (hsilent : ∀ asset, log'.known asset = []) : w.Checkpointed book (log ++ log') :=
  ⟨h.inOrder, fun asset => (h.spaced asset).append_of_silent (hsilent asset),
    fun asset => (h.informed asset).append_of_silent (hsilent asset) ⟨rfl, rfl⟩⟩

/-- What is asked about one asset keeps the snapshots of all assets apart if it does so for that
one. -/
theorem spaced_of_concerns (h : ∀ other, w.Spaced other log) (hown : w.Spaced asset (log ++ log'))
    (hasked : ∀ x ∈ log', w.Concerns asset x.question) (other : String) :
    w.Spaced other (log ++ log') := by
  by_cases heq : other = asset
  · rw [heq]
    exact hown
  · exact (h other).append_of_silent (Transcript.silent_of_concerns heq hasked)

/-- One transfer: its own asset is taken care of, and no other one changes. -/
theorem leaves_checkpointed_replay (hwindow : w.window.Valid) (hconfig : w.config.check = .ok ())
    (h : w.Checkpointed book log) (hcounts : t.occurredAt < w.window.stop) :
    (w.replay book t).Leaves w.Checkpointed (fun log' => ∀ asset, w.Spaced asset log') log := by
  have hown := leaves_replay hwindow hconfig (h.spaced t.asset) (h.informed t.asset) hcounts
  have htouched := Attempt.Ensures.leaves (fun _ _ => trivial)
    (touches_replay (t := t) h.inOrder) log
  refine (hown.and htouched).mono (fun b log' hb => ?_) fun log' hlog => ?_
  · obtain ⟨⟨hspaced, hinformed⟩, ⟨hordered, hothers⟩, more, rfl, hasked⟩ := hb
    refine ⟨hordered, spaced_of_concerns h.spaced hspaced hasked, fun other => ?_⟩
    by_cases heq : other = t.asset
    · rw [heq]
      exact hinformed
    · exact (h.informed other).append_of_silent (Transcript.silent_of_concerns heq hasked)
        (hothers other heq)
  · obtain ⟨hspaced, more, rfl, hasked⟩ := hlog
    exact spaced_of_concerns h.spaced hspaced hasked

/-- The transfers of a page, stamped in any order. -/
theorem leaves_replayAll (hwindow : w.window.Valid) (hconfig : w.config.check = .ok ())
    (h : w.Checkpointed book log) (ts : List Transfer) :
    (w.replayAll book ts).Leaves w.Checkpointed (fun log' => ∀ asset, w.Spaced asset log') log := by
  unfold replayAll
  refine Attempt.leaves_foldlM (fun t ht b log' hb => ?_) book log h
  apply leaves_checkpointed_replay hwindow hconfig hb
  have hcounts := (List.mem_filter.mp ht).2
  simp only [Transfer.countsBefore, Bool.and_eq_true, decide_eq_true_eq] at hcounts
  exact hcounts.2

/-- The pages from some page on. -/
theorem leaves_replayPages (hwindow : w.window.Valid) (hconfig : w.config.check = .ok ()) (n : Nat)
    {book : AccountBook} {log : Transcript} (h : w.Checkpointed book log) :
    (w.replayPages n book).Leaves w.Checkpointed
      (fun log' => ∀ asset, w.Spaced asset log') log := by
  rw [replayPages, Attempt.leaves_bind, Attempt.leaves_question]
  intro answer
  have hpage : w.Checkpointed book (log ++ [⟨.transfers w.account w.window.stop
      ⟨n, w.config.transferPageSize⟩, answer⟩]) := h.append_of_silent fun _ => rfl
  rcases answer with e | listing
  · exact hpage.spaced
  show Attempt.Leaves _ _ (w.replayAll book listing.items >>= _) _
  rw [Attempt.leaves_bind]
  refine (leaves_replayAll hwindow hconfig hpage listing.items).mono (fun b log' hb => ?_)
    fun _ he => he
  by_cases hnext : (Page.ofListing ⟨n, w.config.transferPageSize⟩ listing).hasNext = true
  · simp only [dif_pos hnext]
    exact leaves_replayPages hwindow hconfig (n + 1) hb
  · simp only [dif_neg hnext]
    exact hb
  termination_by maxPage - n
  decreasing_by
    have hlt : n < maxPage := Page.number_lt_maxPage hnext
    show maxPage - (n + 1) < maxPage - n
    omega

/-- At the end of the window all assets that are reported are covered. -/
theorem leaves_finish (hconfig : w.config.check = .ok ()) (hwindow : w.window.Valid)
    (entries : Keyed AssetState) (hsorted : entries.Sorted) {log : Transcript}
    (h : ∀ asset, w.Spaced asset log)
    (hentries : ∀ e ∈ entries, e.2.lastSnapshotAt = (log.known e.1).getLast? ∧
      e.2.context.control ≤ w.window.stop) :
    (w.finish entries).Leaves
      (fun assets log' => (∀ asset, w.Spaced asset log') ∧ (∃ more, log' = log ++ more) ∧
        ∀ e ∈ assets, w.Covered e.1 log')
      (fun log' => ∀ asset, w.Spaced asset log') log := by
  induction entries generalizing log with
  | nil => exact ⟨h, ⟨[], (List.append_nil log).symm⟩, fun _ he => (nomatch he)⟩
  | cons e rest ih =>
    obtain ⟨asset, st⟩ := e
    obtain ⟨hnewest, hstop⟩ := hentries _ List.mem_cons_self
    have hown := leaves_finishAsset hconfig hwindow (h asset) hnewest hstop
    have htouched := Attempt.Ensures.leaves (fun _ _ => trivial)
      (@touches_finishAsset w asset hwindow.1 st) log
    rw [finish, Attempt.leaves_bind]
    refine (hown.and htouched).mono (fun totals? log' hfirst => ?_) fun log' hlog => ?_
    · obtain ⟨⟨hspaced, hcovered⟩, -, more, rfl, hasked⟩ := hfirst
      -- the others are further keys, so nothing is known of them that was not before
      have hrest : ∀ e ∈ rest,
          e.2.lastSnapshotAt = (Transcript.known (log ++ more) e.1).getLast? ∧
            e.2.context.control ≤ w.window.stop := by
        intro e he
        have hne : e.1 ≠ asset := ((List.pairwise_cons.mp hsorted).1 e he).ne'
        have hsilent := Transcript.silent_of_concerns hne hasked
        rw [(Transcript.append_of_silent hsilent).1]
        exact hentries e (List.mem_cons_of_mem _ he)
      rw [Attempt.leaves_bind]
      refine (ih hsorted.tail (spaced_of_concerns h hspaced hasked) hrest).mono
        (fun others log'' hothers => ?_) fun _ he => he
      obtain ⟨hspaced', ⟨more', rfl⟩, hcovered'⟩ := hothers
      have hmore : ∃ more'', log ++ more ++ more' = log ++ more'' :=
        ⟨more ++ more', List.append_assoc _ _ _⟩
      rcases totals? with _ | totals
      · exact ⟨hspaced', hmore, hcovered'⟩
      · refine ⟨hspaced', hmore, fun e he => ?_⟩
        rcases List.mem_cons.mp he with rfl | he
        · exact (hcovered totals rfl).append
        · exact hcovered' e he
    · obtain ⟨hspaced, more, rfl, hasked⟩ := hlog
      exact spaced_of_concerns h hspaced hasked

/-- A whole walk keeps the snapshots of all assets apart, and covers those that it reports. -/
theorem leaves_run (hconfig : w.config.check = .ok ()) (hwindow : w.window.Valid) :
    w.run.Leaves
      (fun custody log => (∀ asset, w.Spaced asset log) ∧ ∀ e ∈ custody.assets, w.Covered e.1 log)
      (fun log => ∀ asset, w.Spaced asset log) [] := by
  rw [run, Attempt.leaves_bind]
  refine (leaves_replayPages hwindow hconfig 1 checkpointed_empty).mono (fun book log hbook => ?_)
    fun _ he => he
  have hentries : ∀ e ∈ book.assets, e.2.lastSnapshotAt = (log.known e.1).getLast? ∧
      e.2.context.control ≤ w.window.stop := by
    intro e he
    have hfind : book.find? e.1 = some e.2 := hbook.inOrder.sorted.find?_of_mem he
    exact ⟨(hbook.informed e.1).newest _ hfind, ((hbook.informed e.1).stands _ hfind).2⟩
  rw [Attempt.leaves_bind]
  exact (leaves_finish hconfig hwindow book.assets hbook.inOrder.sorted hbook.spaced hentries).mono
    (fun assets log' hassets => ⟨hassets.1, hassets.2.2⟩) fun _ he => he

end Walk

namespace Sample

/-- The stores in memory with the ledger, its rate, and the snapshot. -/
def memory : Memory where
  accounts := [account]
  transfers := ledger.map RecordedTransfer.transfer
  rates := [⟨"custody_billing@bank", "usd#bank", .custody, fraction⟩]
  snapshots := [snapshot]
  faults := .none
  noCutoff := false
  extraTotal := 0
  calls := .none
  notices := []

end Sample

namespace Walk

variable {σ : Type} {step : Dialogue.Answering σ} {s s' : σ} {config : Config} {window : Window}
  {account : Account} {result : Except Error AccountCustody} {log : Transcript}

/-- Whatever the stores of a walk with snapshots answer, and whichever of its recordings fail: each
snapshot that it records lies in the window and further behind every one known before than the
staleness threshold, so the control points of those of an asset ascend. If no recording fails, then
one that does not lag behind the end of the window is known of each asset that is reported. -/
theorem snapshots_spaced_and_current (hconfig : config.check = .ok ())
    (henabled : config.snapshotsEnabled = true) (hwindow : window.Valid)
    (hrun : (make config window account).run.run.RunsTo (Dialogue.transcribed step) (s, []) result
      (s', log)) :
    (∀ before snapshot after, log = before ++ ⟨.append snapshot, .ok ()⟩ :: after →
      window.start < snapshot.control ∧ snapshot.control ≤ window.stop ∧
        ∀ seen ∈ Transcript.known before snapshot.asset,
          config.staleness.toInt < snapshot.control.toInt - seen.toInt) ∧
      (∀ asset, (log.recorded asset).Pairwise (· < ·)) ∧
      ∀ custody, result = .ok custody → log.AllRecorded → ∀ e ∈ custody.assets,
        ∃ seen ∈ log.known e.1, Time.minusClamped window.stop seen ≤ config.staleness := by
  have hend := (leaves_run (w := make config window account) hconfig hwindow).of_runsTo hrun
  have hspaced : ∀ asset, (make config window account).Spaced asset log := by
    cases result with
    | ok custody => exact hend.1
    | error e => exact hend
  refine ⟨?_, ?_, ?_⟩
  · rintro before snapshot after rfl
    have hrecorded : snapshot.control ∈
        Transcript.recorded (before ++ ⟨.append snapshot, .ok ()⟩ :: after) snapshot.asset := by
      rw [Transcript.recorded_append, Transcript.recorded_cons_of_append rfl]
      exact List.mem_append_right _ List.mem_cons_self
    obtain ⟨hstart, hstop⟩ := (hspaced snapshot.asset).within _ hrecorded
    refine ⟨hstart, hstop, fun seen hseen => ?_⟩
    have hapart := (hspaced snapshot.asset).apart
    rw [Transcript.known_append, Transcript.known_cons_of_append rfl,
      List.pairwise_append] at hapart
    exact hapart.2.2 seen hseen _ List.mem_cons_self
  · intro asset
    refine ((hspaced asset).apart.sublist (Transcript.recorded_sublist_known log asset)).imp ?_
    intro seen control hapart
    have hnonneg := Config.staleness_nonneg hconfig
    rw [Int64.lt_iff_toInt_lt]
    have hapart' : config.staleness.toInt < control.toInt - seen.toInt := hapart
    omega
  · rintro custody rfl hall e he
    exact hend.2 e he henabled hall

/-- With a threshold of thirty Alice's snapshot at 20 is followed by one at 60 and one at 100. -/
theorem sample_snapshots_spaced_and_current :
    let config : Config := { Config.default with custodyPeriod := 30, stalenessMultiplier := 1 }
    let walk := (make config ⟨20, 100⟩ Sample.account).run.run
    let s : Session Memory := ⟨.empty, Sample.memory⟩
    let log := walk.transcript (Session.answer Memory.stores) s
    log.known "usd#bank" = [20, 60, 100] ∧ log.recorded "usd#bank" = [60, 100] ∧
      (log.recorded "usd#bank").Pairwise (· < ·) ∧ log.AllRecorded ∧
      ∃ custody, ((walk.run (Session.answer Memory.stores)).run s).1 = .ok custody ∧
        custody.assets.map Prod.fst = ["usd#bank"] ∧
        ∀ e ∈ custody.assets,
          ∃ seen ∈ log.known e.1, Time.minusClamped 100 seen ≤ config.staleness := by
  intro config walk s log
  have hrun := Dialogue.runsTo_transcript (@Session.Unreliable.answered _ Memory.stores) walk s []
  obtain ⟨-, hascending, hcurrent⟩ := snapshots_spaced_and_current (by decide) rfl (by decide) hrun
  -- the first page is the last one, so the walk is unfolded once before it is evaluated
  have hlog : log.known "usd#bank" = [20, 60, 100] ∧ log.recorded "usd#bank" = [60, 100] ∧
      log.AllRecorded := by
    unfold log walk
    rw [run, replayPages]
    decide +kernel
  have hended : ((walk.run (Session.answer Memory.stores)).run s).1.map
      (fun custody => custody.assets.map Prod.fst) = .ok ["usd#bank"] := by
    unfold walk
    rw [run, replayPages]
    decide +kernel
  obtain ⟨hknown, hrecorded, hall⟩ := hlog
  refine ⟨hknown, hrecorded, hascending "usd#bank", hall, ?_⟩
  rcases hcustody : ((walk.run (Session.answer Memory.stores)).run s).1 with e | custody
  · rw [hcustody] at hended
    cases hended
  · rw [hcustody] at hended
    exact ⟨custody, rfl, Except.ok.inj hended, hcurrent custody hcustody hall⟩

end Walk

end Custodian
