import Custodian.Proofs.Database.Faults
import Custodian.Proofs.Replay.Report
import Custodian.Proofs.Snapshot.Seeding
import Mathlib.Logic.Relation

/-!
# Stored snapshots stay sound

A `System` is a database with any number of reports under way on it. They take turns question
by question in any order, look-ups and recordings of snapshots may fail, and a report may be
dropped between any two questions; between its questions a report touches nothing that others
see, so nothing finer can be observed. Over a ledger whose stamps ascend, started without
snapshots, every snapshot ever stored carries the balance that its account holds just before
the control point (`System.sound_of_reachable`).

The invariant is that the tables hold the ledger and that whatever is left of each report
keeps its side of the contract of the one world they all look at.
-/

namespace Custodian

/-! ## Reports under way -/

/-- A dialogue whose result is of no interest. -/
def Dialogue.quiet {α : Type} (d : Dialogue α) : Dialogue Unit := d.bind fun _ => done ()

/-- A report under way: the rates it has kept, and what is left of its walks. -/
structure UnderWay where
  memo : RateMemo
  strands : List (Dialogue Unit)

/-- The reports that may be started: on an account, on a page of the accounts of a domain or of
all accounts, and on any accounts whose walks are then interleaved freely. -/
inductive UnderWay.Starts : UnderWay → Prop
  | account {config : Config} (hconfig : config.check = .ok ()) (id : String)
      (start stop : Int64) : Starts ⟨.empty, [(Report.account config id start stop).run.quiet]⟩
  | accounts {config : Config} (hconfig : config.check = .ok ()) (domain : Option String)
      (start stop : Int64) (page : PageRequest) :
      Starts ⟨.empty, [(Report.accounts config domain start stop page).run.quiet]⟩
  | walks {config : Config} (hconfig : config.check = .ok ()) {window : Window}
      (hwindow : window.Valid) (accounts : List Account) :
      Starts ⟨.empty, accounts.map fun a => (Walk.make config window a).run.run.quiet⟩

/-- A database and the reports under way on it. -/
structure System where
  database : Database
  reports : List UnderWay

/-- One step of a system: a report starts, a question of one of them is answered, or one is
dropped. -/
inductive System.Step : System → System → Prop
  | start (s : System) {r : UnderWay} (h : r.Starts) : Step s ⟨s.database, r :: s.reports⟩
  | answer {db db' : Database} {memo memo' : RateMemo} {q : Question} {a : q.Answer}
      {next : q.Answer → Dialogue Unit} (before after : List UnderWay)
      (left right : List (Dialogue Unit))
      (h : Session.Step ⟨memo, db⟩ q a ⟨memo', db'⟩) :
      Step ⟨db, before ++ ⟨memo, left ++ .ask q next :: right⟩ :: after⟩
        ⟨db', before ++ ⟨memo', left ++ next a :: right⟩ :: after⟩
  | abort (db : Database) (before : List UnderWay) (r : UnderWay) (after : List UnderWay) :
      Step ⟨db, before ++ r :: after⟩ ⟨db, before ++ after⟩

/-! ## What is left of a report -/

/-- A report under way sees a world, and what is left of it keeps the contract. -/
structure UnderWay.Keeps (r : UnderWay) (ledger : Ledger) (W : World) (t : Tables) : Prop where
  world : ⟨ledger.committed, r.memo.rate t, t.listAccounts, some Int64.maxValue⟩ = W
  strands : ∀ d ∈ r.strands, Dialogue.Ensures W.contract (fun _ => True) d

/-- What is ensured whatever the result. -/
theorem Dialogue.ensures_quiet {α : Type} {C : Contract} {post : α → Prop} {d : Dialogue α}
    (h : d.Ensures C post) : d.quiet.Ensures C fun _ => True := by
  show Dialogue.Ensures C _ (d >>= fun _ => done ())
  rw [ensures_bind]
  exact h.mono fun _ _ => trivial

namespace UnderWay

variable {r : UnderWay} {ledger : Ledger} {W : World} {t : Tables}

/-- Reports look at the table of snapshots only by questions. -/
theorem Keeps.withSnapshots (h : r.Keeps ledger W t) (snapshots : Option (List SnapshotRow)) :
    r.Keeps ledger W { t with snapshots := snapshots } := ⟨h.world, h.strands⟩

/-- Each page holds at least one row, so it is enough that rows can be counted. -/
theorem regular {config : Config} (hconfig : config.check = .ok ())
    (hhorizon : W.horizon = some Int64.maxValue) (hordered : W.transfers.TimeOrdered)
    (hcount : ∀ account stop, (W.transfers.ofAccount account stop).length ≤ maxPage)
    (stop : Int64) : Report.Regular config W stop := by
  refine ⟨hconfig, fun _ => ⟨_, hhorizon, stop.le_maxValue⟩, hordered, fun account stop => ?_⟩
  have hsize := Config.transferPageSize_pos hconfig
  calc (W.transfers.ofAccount account stop).length
    _ ≤ 1 * maxPage := (Nat.one_mul maxPage).symm ▸ hcount account stop
    _ ≤ config.transferPageSize * maxPage := Nat.mul_le_mul_right maxPage hsize

/-- A report keeps the contract when it starts. -/
theorem Starts.keeps (h : r.Starts)
    (hworld : ⟨ledger.committed, RateMemo.empty.rate t, t.listAccounts, some Int64.maxValue⟩ = W)
    (hordered : W.transfers.TimeOrdered)
    (hcount : ∀ account stop, (W.transfers.ofAccount account stop).length ≤ maxPage) :
    r.Keeps ledger W t := by
  have hregular : ∀ {config : Config}, config.check = .ok () → ∀ stop,
      Report.Regular config W stop := fun hconfig =>
    regular hconfig (hworld ▸ rfl) hordered hcount
  rcases h with ⟨hconfig, id, start, stop⟩ | ⟨hconfig, domain, start, stop, page⟩ |
    ⟨hconfig, hwindow, accounts⟩
  · refine ⟨hworld, fun d hd => ?_⟩
    rw [List.mem_singleton.mp hd]
    exact Dialogue.ensures_quiet
      (Report.ensures_account (hregular hconfig stop) id start)
  · refine ⟨hworld, fun d hd => ?_⟩
    rw [List.mem_singleton.mp hd]
    exact Dialogue.ensures_quiet
      (Report.ensures_accounts (hregular hconfig stop) domain start page)
  · refine ⟨hworld, fun d hd => ?_⟩
    obtain ⟨account, -, rfl⟩ := List.mem_map.mp hd
    exact Dialogue.ensures_quiet (Walk.ensures_run ((hregular hconfig _).walk hwindow account))

end UnderWay

/-! ## The invariant -/

/-- The tables record the ledger, every stored snapshot is sound, and every report under way
keeps the contract. -/
structure System.Invariant (ledger : Ledger) (W : World) (s : System) : Prop where
  records : s.database.tables.Records ledger
  sound : s.database.tables.Sound ledger.committed
  world : ⟨ledger.committed, RateMemo.empty.rate s.database.tables,
    s.database.tables.listAccounts, some Int64.maxValue⟩ = W
  reports : ∀ r ∈ s.reports, r.Keeps ledger W s.database.tables

namespace System

variable {ledger : Ledger} {W : World} {s s' : System}

/-- One step keeps the invariant. -/
theorem Invariant.step (hordered : W.transfers.TimeOrdered)
    (hcount : ∀ account stop, (W.transfers.ofAccount account stop).length ≤ maxPage)
    (h : Invariant ledger W s) (hstep : Step s s') : Invariant ledger W s' := by
  rcases hstep with ⟨_, hstarts⟩ | ⟨before, after, left, right, hanswer⟩ | ⟨db, before, r, after⟩
  · refine ⟨h.records, h.sound, h.world, fun r hr => ?_⟩
    rcases List.mem_cons.mp hr with rfl | hr
    · exact hstarts.keeps h.world hordered hcount
    · exact h.reports r hr
  · rename_i db db' memo memo' q a next
    have hactive := h.reports _ (List.mem_append_right before List.mem_cons_self)
    have hask := hactive.strands _ (List.mem_append_right left List.mem_cons_self)
    obtain ⟨hasked, hnext⟩ := hask
    have hledger : W.transfers = ledger.committed := by
      rw [← h.world]
    have hhorizon : W.horizon = some Int64.maxValue := by
      rw [← h.world]
    have hworld : Session.world ⟨memo, db⟩ ledger W.horizon = W := by
      rw [hhorizon]
      exact hactive.world
    have hbefore : Session.Holds ledger W ⟨memo, db⟩ := by
      refine ⟨h.records, ?_, hworld⟩
      rw [hhorizon]
      rintro _ ⟨⟩
      exact h.sound.upTo_maxValue
    obtain ⟨hallowed, hholds⟩ :=
      Session.keeps hledger ⟨memo, db⟩ q a ⟨memo', db'⟩ hbefore hasked hanswer
    obtain ⟨snapshots, htables⟩ := hanswer.tables_eq
    have htables' : db'.tables = { db.tables with snapshots := snapshots } := htables
    refine ⟨hholds.records, (hholds.sound _ hhorizon).sound, ?_, fun r hr => ?_⟩
    · rw [htables']
      exact h.world
    · rcases List.mem_append.mp hr with hr | hr
      · rw [htables']
        exact (h.reports r (List.mem_append_left _ hr)).withSnapshots snapshots
      · rcases List.mem_cons.mp hr with rfl | hr
        · refine ⟨?_, fun d hd => ?_⟩
          · have hworld' := hholds.world
            rw [hhorizon] at hworld'
            exact hworld'
          rcases List.mem_append.mp hd with hd | hd
          · exact hactive.strands d (List.mem_append_left _ hd)
          · rcases List.mem_cons.mp hd with rfl | hd
            · exact hnext a hallowed
            · exact hactive.strands d
                (List.mem_append_right _ (List.mem_cons_of_mem _ hd))
        · rw [htables']
          exact (h.reports r
            (List.mem_append_right _ (List.mem_cons_of_mem _ hr))).withSnapshots snapshots
  · refine ⟨h.records, h.sound, h.world, fun r' hr' => ?_⟩
    rcases List.mem_append.mp hr' with hr' | hr'
    · exact h.reports r' (List.mem_append_left _ hr')
    · exact h.reports r' (List.mem_append_right _ (List.mem_cons_of_mem _ hr'))

/-- Any number of steps keeps the invariant. -/
theorem Invariant.of_reachable (hordered : W.transfers.TimeOrdered)
    (hcount : ∀ account stop, (W.transfers.ofAccount account stop).length ≤ maxPage)
    (h : Invariant ledger W s) (hreach : Relation.ReflTransGen Step s s') :
    Invariant ledger W s' := by
  induction hreach with
  | refl => exact h
  | tail _ hstep ih => exact ih.step hordered hcount hstep

/-- In every state that reports reach from a database without snapshots, by any interleaving
and under any faults of the snapshot store, every stored snapshot is sound. Pages are counted
in 32 bits and may hold as little as one row, so no account may have more rows than that. -/
theorem sound_of_reachable {db : Database} (hrecords : db.tables.Records ledger)
    (hempty : db.tables.snapshots = some []) (hordered : ledger.committed.TimeOrdered)
    (hcount : ∀ account stop, (ledger.committed.ofAccount account stop).length ≤ maxPage)
    (hreach : Relation.ReflTransGen Step ⟨db, []⟩ s) :
    s.database.tables.Sound ledger.committed := by
  have hstart : Invariant ledger
      ⟨ledger.committed, RateMemo.empty.rate db.tables, db.tables.listAccounts,
        some Int64.maxValue⟩
      ⟨db, []⟩ := by
    refine ⟨hrecords, fun rows hrows r hr => ?_, rfl, fun r hr => (nomatch hr)⟩
    rw [hempty] at hrows
    cases hrows
    cases hr
  exact (hstart.of_reachable hordered hcount hreach).sound

/-- One strand of a report goes on to its end while all others wait. -/
theorem reaches_of_runsTo {α : Type} {d : Dialogue α} {s s' : Session Database} {value : α}
    (before after : List UnderWay) (left right : List (Dialogue Unit))
    (hrun : d.RunsTo Session.Step s value s') :
    Relation.ReflTransGen Step
      ⟨s.stores, before ++ ⟨s.memo, left ++ d.quiet :: right⟩ :: after⟩
      ⟨s'.stores, before ++ ⟨s'.memo, left ++ .done () :: right⟩ :: after⟩ := by
  induction hrun with
  | done value s => exact .refl
  | ask answered rest ih => exact .head (Step.answer before after left right answered) ih

end System

/-- Stores with faults answer as stores do whose look-ups and recordings may fail. -/
theorem Session.step_withFaults (faults : SnapshotFaults) (s : Session Database) (q : Question) :
    Session.Step s q ((answer (Database.stores.withFaults faults) q).run s).1
      ((answer (Database.stores.withFaults faults) q).run s).2 := by
  cases q with
  | snapshot account asset time =>
    have hanswer : answer (Database.stores.withFaults faults) (.snapshot account asset time) =
        match faults.lookup asset with
        | none => answer Database.stores (.snapshot account asset time)
        | some e => pure (.error e) := by
      show onStores ((Database.stores.withFaults faults).snapshot account asset time) = _
      unfold Stores.withFaults
      rcases hfault : faults.lookup asset with _ | e <;> simp only [hfault] <;> rfl
    rw [hanswer]
    cases faults.lookup asset with
    | none => exact .answered s (.snapshot account asset time)
    | some e => exact .lookupFailed s account asset time e
  | append snapshot =>
    have hanswer : answer (Database.stores.withFaults faults) (.append snapshot) =
        match faults.recording snapshot.asset snapshot.control with
        | none => answer Database.stores (.append snapshot)
        | some e => pure (.error e) := by
      show onStores ((Database.stores.withFaults faults).append snapshot) = _
      unfold Stores.withFaults
      rcases hfault : faults.recording snapshot.asset snapshot.control with _ | e <;>
        simp only [hfault] <;> rfl
    rw [hanswer]
    cases faults.recording snapshot.asset snapshot.control with
    | none => exact .answered s (.append snapshot)
    | some e => exact .recordingFailed s snapshot e
  | transfers account stop page => exact .answered s (.transfers account stop page)
  | accounts domain page => exact .answered s (.accounts domain page)
  | rate scope asset => exact .answered s (.rate scope asset)
  | writesWait => exact .answered s .writesWait
  | note notice => exact .answered s (.note notice)

namespace System

/-- Two walks over Alice have read their transfers when a report on her starts and runs to its
end. Then one of the walks is dropped, and the other one goes on and can record nothing. The
snapshot of the report is the only one in the end, and it is sound. -/
theorem sound_of_report_sample :
    let db : Database := .ofTables (Sample.tables [])
    let strand := ((Walk.make .default ⟨20, 100⟩ Sample.account).afterPage (.ok Sample.page)).run
    let reading : UnderWay := ⟨.empty, [strand.quiet]⟩
    let reported := (((Report.account .default "alice@bank" 20 100).run.run
      (Session.answer Database.stores)).run ⟨.empty, db⟩).2
    let ended := ((strand.run (Session.answer (Database.stores.withFaults
      ⟨fun _ => none, fun _ _ => some Database.writerStopped⟩))).run ⟨.empty, reported.stores⟩).2
    Relation.ReflTransGen Step ⟨db, []⟩ ⟨db, [reading, reading]⟩ ∧
    Relation.ReflTransGen Step ⟨db, [reading, reading]⟩
      ⟨reported.stores, [⟨reported.memo, [.done ()]⟩, reading, reading]⟩ ∧
    Step ⟨reported.stores, [⟨reported.memo, [.done ()]⟩, reading, reading]⟩
      ⟨reported.stores, [⟨reported.memo, [.done ()]⟩, reading]⟩ ∧
    Relation.ReflTransGen Step ⟨reported.stores, [⟨reported.memo, [.done ()]⟩, reading]⟩
      ⟨ended.stores, [⟨reported.memo, [.done ()]⟩, ⟨ended.memo, [.done ()]⟩]⟩ ∧
    ended.stores.tables.snapshots.map (·.map fun r => (r.control, r.balance)) =
      some [(60, "50")] ∧
    ended.stores.notices =
      [.snapshotWriteFailed "alice@bank" "usd#bank" 60 Database.writerStopped,
        .snapshotWriteFailed "alice@bank" "usd#bank" 100 Database.writerStopped] ∧
    ended.stores.tables.Sound Sample.ledger.committed := by
  intro db strand reading reported ended
  have hreads : ∀ others, Relation.ReflTransGen Step ⟨db, others⟩ ⟨db, reading :: others⟩ := by
    intro others
    have hstart : Step ⟨db, others⟩
        ⟨db, ⟨.empty, [(Walk.make .default ⟨20, 100⟩ Sample.account).run.run.quiet]⟩ :: others⟩ :=
      .start ⟨db, others⟩ (.walks (by decide) (by decide) [Sample.account])
    rw [Walk.run_eq_ask] at hstart
    have hanswered := Session.Step.answered ⟨.empty, db⟩ (.transfers Sample.account.id 100
      ⟨1, Config.default.transferPageSize⟩)
    rw [Sample.answer_transfers (Sample.records [])] at hanswered
    exact (Relation.ReflTransGen.single hstart).tail (.answer [] others [] [] hanswered)
  have hbegun := (hreads []).trans (hreads [reading])
  have hreport : Relation.ReflTransGen Step ⟨db, [reading, reading]⟩
      ⟨reported.stores, [⟨reported.memo, [.done ()]⟩, reading, reading]⟩ :=
    .head (.start ⟨db, [reading, reading]⟩
        (@UnderWay.Starts.account .default (by decide) "alice@bank" 20 100))
      (reaches_of_runsTo [] [reading, reading] [] [] (Session.runsTo_answer _ ⟨.empty, db⟩))
  have hdrop : Step ⟨reported.stores, [⟨reported.memo, [.done ()]⟩, reading, reading]⟩
      ⟨reported.stores, [⟨reported.memo, [.done ()]⟩, reading]⟩ :=
    .abort _ [⟨reported.memo, [.done ()]⟩] reading [reading]
  have hended : Relation.ReflTransGen Step
      ⟨reported.stores, [⟨reported.memo, [.done ()]⟩, reading]⟩
      ⟨ended.stores, [⟨reported.memo, [.done ()]⟩, ⟨ended.memo, [.done ()]⟩]⟩ :=
    reaches_of_runsTo [⟨reported.memo, [.done ()]⟩] [] [] []
      (Dialogue.runsTo_run (Session.step_withFaults _) strand ⟨.empty, reported.stores⟩)
  refine ⟨hbegun, hreport, hdrop, hended, ?_, ?_, ?_⟩
  · unfold ended reported
    rw [Sample.run_report (Sample.records [])]
    decide +kernel
  · unfold ended reported
    rw [Sample.run_report (Sample.records [])]
    decide +kernel
  · exact sound_of_reachable (Sample.records []) rfl Sample.timeOrdered
      (fun id stop => Nat.le_trans (Sample.fits id stop) (by decide))
      (((hbegun.trans hreport).tail hdrop).trans hended)

end System

end Custodian
