import Custodian.Proofs.Database.Ingestion
import Custodian.Proofs.Replay.Footprint
import Custodian.Proofs.Snapshot.Seeding
import Mathlib.Data.List.Infix

/-!
# A walk over a ledger that grows

While a walk reads its pages, transfers may be recorded between any two queries: between two
pages, and on one page between the count and the reading of its rows (`Reading.Step`). As long as
new rows come last in commit order, the pages together are a beginning of the rows of the account
in commit order, without gaps and repetitions, and reach as far as the rows that were counted last
(`Walk.pages_of_runsTo`).

The invariant of the loop, `Reading.Upto`, says this of the pages so far. A page is followed by
another one only if more rows were counted than stand on the pages so far. So these are full, and
what is recorded later does not move them.
-/

namespace Custodian

/-- What a walk has read while the ledger grew. -/
structure Reading where
  tables : Tables
  /-- The pages asked for. -/
  requests : List PageRequest
  /-- The rows of the account that there were when they were last counted. -/
  counted : List TransferRow
  /-- The transfers of all pages. -/
  delivered : List Transfer

namespace Reading

/-- Nothing has been asked yet. -/
def start (t : Tables) : Reading := ⟨t, [], [], []⟩

/-- How the questions of a walk may be answered meanwhile. Pages are counted and read from the
tables as they then are, or fail; everything else may be answered in any way. -/
inductive Step : Dialogue.Answering Reading
  | page {m : Reading} {t t' : Tables} (account : String) (stop : Int64) (page : PageRequest)
      {listing : Listing Transfer} (before : m.tables.Ingested t) (between : t.Ingested t')
      (listed : t.listTransfersAcross t' account stop page = .ok listing) :
      Step m (.transfers account stop page) (.ok listing)
        ⟨t', m.requests ++ [page], t.matching account stop, m.delivered ++ listing.items⟩
  | pageFailed {m : Reading} {t : Tables} (account : String) (stop : Int64) (page : PageRequest)
      (e : Error) (before : m.tables.Ingested t) :
      Step m (.transfers account stop page) (.error e)
        { m with tables := t, requests := m.requests ++ [page] }
  | other {m : Reading} {t : Tables} {q : Question} (a : q.Answer)
      (elsewhere : ∀ account stop page, q ≠ .transfers account stop page)
      (before : m.tables.Ingested t) : Step m q a { m with tables := t }

end Reading

/-- A session answers in one of these ways, and records no transfers. -/
theorem Reading.step_of_session {s s' : Session Database} {q : Question} {a : q.Answer}
    (h : Session.Step s q a s') {m : Reading} (hm : m.tables = s.stores.tables) :
    ∃ m', Reading.Step m q a m' ∧ m'.tables = s'.stores.tables ∧
      m'.tables.transfers = m.tables.transfers := by
  obtain ⟨snapshots, htables⟩ := h.tables_eq
  have hsame : s'.stores.tables.transfers = m.tables.transfers := by
    rw [htables, hm]
  have hingested : m.tables.Ingested s'.stores.tables := .single (.elsewhere hsame)
  cases q with
  | transfers account stop page =>
    have hlisted : a = m.tables.listTransfers account stop page ∧ s' = s := by
      rw [hm]
      cases h
      exact ⟨rfl, rfl⟩
    rw [← Tables.listTransfersAcross_self] at hlisted
    obtain ⟨hanswer, rfl⟩ := hlisted
    rcases a with e | listing
    · exact ⟨_, .pageFailed account stop page e .refl, hm, rfl⟩
    · exact ⟨_, .page account stop page .refl .refl hanswer.symm, hm, rfl⟩
  | _ => exact ⟨_, .other a (fun _ _ _ h => nomatch h) hingested, rfl, hsame⟩

/-- So a run against a database is one of the runs that are looked at here, without ingestion. -/
theorem Reading.runsTo_of_session {α : Type} {d : Dialogue α} {s s' : Session Database} {value : α}
    (hrun : d.RunsTo Session.Step s value s') {m : Reading} (hm : m.tables = s.stores.tables) :
    ∃ m', d.RunsTo Reading.Step m value m' ∧ m'.tables = s'.stores.tables ∧
      m'.tables.transfers = m.tables.transfers := by
  induction hrun generalizing m with
  | done value s => exact ⟨m, .done value m, hm, rfl⟩
  | ask answered rest ih =>
    obtain ⟨m₁, hstep, hm₁, hsame₁⟩ := step_of_session answered hm
    obtain ⟨m', hrest, hm', hsame⟩ := ih hm₁
    exact ⟨m', .ask hstep hrest, hm', hsame.trans hsame₁⟩

/-! ## What replays do not ask -/

/-- No page is asked for. -/
def Contract.offLedger : Contract :=
  ⟨fun q => ∀ account stop page, q ≠ .transfers account stop page, fun _ _ => True⟩

namespace Walk

variable {w : Walk} {book : AccountBook}

/-- Between two pages none is asked for. -/
theorem offLedger_replayAll (h : w.InOrder book) (ts : List Transfer) :
    (w.replayAll book ts).Ensures .offLedger w.InOrder fun _ => True := by
  refine Attempt.ensures_foldlM (fun _ _ b => w.InOrder b) (fun _ t _ b hb => ?_) _ [] book h
  have htouched := touches_replay (t := t) hb
  refine Attempt.Ensures.mono (Dialogue.Ensures.under htouched ?_ fun _ _ _ => trivial)
    (fun _ hb' => hb'.1) fun _ he => he
  rintro q hconcerns account stop page rfl
  exact hconcerns

end Walk

namespace Reading

variable {m m' : Reading}

/-- Where no page is asked for only the tables change. -/
theorem keeps_offLedger (m : Reading) :
    Dialogue.Keeps .offLedger Step fun m' => ∃ t, m.tables.Ingested t ∧
      m' = { m with tables := t } := by
  rintro _ q a _ ⟨t, hgrew, rfl⟩ hasked hstep
  refine ⟨trivial, ?_⟩
  cases hstep with
  | page account stop page => exact absurd rfl (hasked account stop page)
  | pageFailed account stop page => exact absurd rfl (hasked account stop page)
  | other a elsewhere before => exact ⟨_, hgrew.trans before, rfl⟩

/-- The replay of a page asks for no other one, so only the tables change meanwhile. -/
theorem of_runsTo_replayAll {w : Walk} {book : AccountBook} (h : w.InOrder book)
    {ts : List Transfer} {result : Except Error AccountBook}
    (hrun : (w.replayAll book ts).run.RunsTo Step m result m') :
    (∀ b, result = .ok b → w.InOrder b) ∧
      ∃ t, m.tables.Ingested t ∧ m' = { m with tables := t } := by
  obtain ⟨hend, hgrew⟩ := Dialogue.Ensures.of_runsTo (keeps_offLedger m)
    (Walk.offLedger_replayAll h ts) hrun ⟨m.tables, .refl, rfl⟩
  refine ⟨fun b hok => ?_, hgrew⟩
  rw [hok] at hend
  exact hend

/-! ## The pages so far -/

theorem requests_succ (n size : Nat) :
    ((List.range' 1 n).map fun i => PageRequest.mk i size) ++ [⟨n + 1, size⟩] =
      (List.range' 1 (n + 1)).map fun i => ⟨i, size⟩ := by
  rw [List.range'_concat, List.map_append, Nat.one_mul, Nat.add_comm 1 n]
  rfl

/-- The walk has read `n` pages since the tables stood as given. -/
structure Upto (w : Walk) (first : Tables) (n : Nat) (m : Reading) : Prop where
  places : m.tables.DistinctPlaces
  grew : first.GrewLast m.tables
  requests : m.requests = (List.range' 1 n).map fun i => ⟨i, w.config.transferPageSize⟩
  counted : m.counted <+: m.tables.matching w.account w.window.stop
  /-- What there was at first has been counted. -/
  whole : 0 < n → first.matching w.account w.window.stop <+: m.counted
  /-- The pages before the last one are full. -/
  reached : (n - 1) * w.config.transferPageSize ≤ m.counted.length
  /-- The pages together are a beginning of the rows, and hold what was counted. -/
  seen : ∃ seen : List TransferRow, seen <+: m.tables.matching w.account w.window.stop ∧
    seen.mapM TransferRow.toTransfer = .ok m.delivered ∧
    seen.length ≤ n * w.config.transferPageSize ∧
    m.counted.take (n * w.config.transferPageSize) <+: seen

variable {w : Walk} {first : Tables} {n : Nat}

theorem upto_start {t : Tables} (hplaces : t.DistinctPlaces) : Upto w t 0 (start t) where
  places := hplaces
  grew := Tables.grewLast_of_eq rfl
  requests := rfl
  counted := List.nil_prefix
  whole h := absurd h (Nat.lt_irrefl 0)
  reached := by simp
  seen := ⟨[], List.nil_prefix, rfl, by simp, by simp [start]⟩

namespace Upto

/-- What is recorded at the end leaves the pages as they are. -/
theorem ingested (h : Upto w first n m) {t : Tables} (ht : m.tables.Ingested t) :
    Upto w first n { m with tables := t } := by
  obtain ⟨hgrew, hplaces⟩ := ht.grewLast h.places
  have hrows := hgrew.matching w.account w.window.stop
  obtain ⟨seen, hseen, hread, hlength, hcounted⟩ := h.seen
  exact ⟨hplaces, h.grew.trans hgrew, h.requests, h.counted.trans hrows, h.whole, h.reached,
    seen, hseen.trans hrows, hread, hlength, hcounted⟩

/-- If the pages so far are full the next one goes on where they end. -/
theorem page (h : Upto w first n m)
    (hfull : n * w.config.transferPageSize ≤ m.counted.length) {t t' : Tables}
    (hbefore : m.tables.Ingested t) (hbetween : t.Ingested t') {listing : Listing Transfer}
    (hlisted : t.listTransfersAcross t' w.account w.window.stop
      ⟨n + 1, w.config.transferPageSize⟩ = .ok listing) :
    Upto w first (n + 1) ⟨t', m.requests ++ [⟨n + 1, w.config.transferPageSize⟩],
      t.matching w.account w.window.stop, m.delivered ++ listing.items⟩ := by
  let request : PageRequest := ⟨n + 1, w.config.transferPageSize⟩
  obtain ⟨hgrew, hplaces⟩ := hbefore.grewLast h.places
  obtain ⟨hgrew', hplaces'⟩ := hbetween.grewLast hplaces
  have hrows := hgrew.matching w.account w.window.stop
  have hrows' := hgrew'.matching w.account w.window.stop
  obtain ⟨-, hitems⟩ := Tables.listTransfersAcross_eq_ok hlisted
  obtain ⟨seen, hseen, hread, hlength, hcounted⟩ := h.seen
  -- full pages are exactly the rows they have room for
  have hroom : seen.length = n * w.config.transferPageSize := by
    have hle := hcounted.length_le
    rw [List.length_take, Nat.min_eq_left hfull] at hle
    omega
  have hprefix : seen <+: t'.matching w.account w.window.stop :=
    (hseen.trans hrows).trans hrows'
  have hpages : (t'.matching w.account w.window.stop).take request.offset = seen := by
    have hoffset : request.offset = seen.length := hroom.symm
    rw [hoffset]
    exact (List.prefix_iff_eq_take.mp hprefix).symm
  have htake := request.take_offset_append_slice (Nat.succ_pos n)
    (t'.matching w.account w.window.stop)
  rw [hpages] at htake
  refine ⟨hplaces', (h.grew.trans hgrew).trans hgrew', ?_, hrows', fun _ => ?_, ?_, ?_⟩
  · show m.requests ++ [request] = _
    rw [h.requests, requests_succ]
  · exact (h.grew.trans hgrew).matching w.account w.window.stop
  · exact Nat.le_trans hfull (h.counted.trans hrows).length_le
  · refine ⟨(t'.matching w.account w.window.stop).take ((n + 1) * w.config.transferPageSize),
      List.take_prefix _ _, ?_, List.length_take_le _ _, hrows'.take _⟩
    have hmapped : (seen ++ request.slice (t'.matching w.account w.window.stop)).mapM
        TransferRow.toTransfer = .ok (m.delivered ++ listing.items) := by
      rw [List.mapM_append, hread, hitems]
      rfl
    rw [htake] at hmapped
    exact hmapped

end Upto

/-- How the loop over the pages ends: pages were asked for one after another, each beginning among
the rows counted last; and if it did not fail, the last page has room for all of these. -/
structure Ended (w : Walk) (first : Tables) (result : Except Error AccountBook) (m : Reading) :
    Prop where
  requests : ∃ k ≤ maxPage,
    m.requests = (List.range' 1 k).map (fun i => ⟨i, w.config.transferPageSize⟩) ∧
      (k - 1) * w.config.transferPageSize ≤ m.counted.length
  pages : ∀ b, result = .ok b → ∃ k, 0 < k ∧ Upto w first k m ∧
    (m.counted.length ≤ k * w.config.transferPageSize ∨ maxPage ≤ k)

/-- A loop that fails has only asked. -/
theorem Upto.ended_of_error (h : Upto w first n m) (hn : n ≤ maxPage) (e : Error) :
    Ended w first (.error e) m :=
  ⟨⟨n, hn, h.requests, h.reached⟩, fun _ hok => nomatch hok⟩

/-- The loop from page `n + 1` on. -/
theorem ended_of_runsTo (hsize : 0 < w.config.transferPageSize) {n : Nat} (hn : n < maxPage)
    {book : AccountBook} {m m' : Reading} (horder : w.InOrder book)
    {result : Except Error AccountBook} (h : Upto w first n m)
    (hfull : n * w.config.transferPageSize ≤ m.counted.length)
    (hrun : (w.replayPages (n + 1) book).run.RunsTo Step m result m') :
    Ended w first result m' := by
  let request : PageRequest := ⟨n + 1, w.config.transferPageSize⟩
  rw [Walk.replayPages] at hrun
  rcases Attempt.of_runsTo_bind hrun with ⟨answer, m₁, hask, hrun⟩ | ⟨e, hask, -⟩
  swap
  · obtain ⟨_, hanswer, -⟩ := Attempt.of_runsTo_question hask
    cases hanswer
  obtain ⟨_, hanswer, hstep⟩ := Attempt.of_runsTo_question hask
  cases hanswer
  cases hstep with
  | other _ elsewhere => exact absurd rfl (elsewhere _ _ _)
  | pageFailed _ _ _ e before =>
    cases hrun
    refine ⟨⟨n + 1, hn, ?_, hfull⟩, fun _ hok => by cases hok⟩
    show m.requests ++ [request] = _
    rw [h.requests, requests_succ]
  | @page _ t t' _ _ _ listing before between listed =>
    have hread := h.page hfull before between listed
    obtain ⟨htotal, -⟩ := Tables.listTransfersAcross_eq_ok listed
    rcases Attempt.of_runsTo_bind hrun with ⟨b, m₂, hreplay, hrun⟩ | ⟨e, hreplay, rfl⟩
    swap
    · obtain ⟨-, t₂, hgrew, rfl⟩ := of_runsTo_replayAll horder hreplay
      exact (hread.ingested hgrew).ended_of_error hn e
    obtain ⟨hb, t₂, hgrew, rfl⟩ := of_runsTo_replayAll horder hreplay
    have hupto := hread.ingested hgrew
    by_cases hnext : (Page.ofListing request listing).hasNext = true
    · rw [dif_pos hnext] at hrun
      have hlt := Page.lt_total_of_hasNext hsize hnext
      rw [htotal] at hlt
      exact ended_of_runsTo hsize (Page.number_lt_maxPage hnext) (hb b rfl) hupto hlt.le hrun
    · rw [dif_neg hnext] at hrun
      cases hrun
      have hlast := Page.total_le_of_last hsize hnext
      rw [htotal] at hlast
      exact ⟨⟨n + 1, hn, hupto.requests, hupto.reached⟩,
        fun _ _ => ⟨n + 1, Nat.succ_pos n, hupto, hlast⟩⟩
  termination_by maxPage - n
  decreasing_by
    have hlt : n + 1 < maxPage := Page.number_lt_maxPage hnext
    omega

end Reading

namespace Walk

variable {w : Walk} {t : Tables} {m : Reading} {result : Except Error AccountBook}

/-- However transfers are recorded while a walk reads its pages, if new rows come last in commit
order and rows can be counted in 64 bits with sign: pages are asked for in order, page numbers and
offsets are in range, and once the loop ends well, the pages together are the rows of the account
in commit order up to some place, each row once. Every row that was counted last is among them, so
if nothing is recorded they are all rows. -/
theorem pages_of_runsTo (hsize : 0 < w.config.transferPageSize) (hplaces : t.DistinctPlaces)
    (hrun : (w.replayPages 1 (.empty w.account)).run.RunsTo Reading.Step (.start t) result m)
    (hfits : (m.tables.matching w.account w.window.stop).length ≤
      w.config.transferPageSize * maxPage)
    (hcount : m.counted.length < 2 ^ 63) :
    (∃ k ≤ maxPage,
      m.requests = (List.range' 1 k).map (fun i => ⟨i, w.config.transferPageSize⟩)) ∧
    (∀ request ∈ m.requests, request.offset < 2 ^ 63) ∧
    ∀ book, result = .ok book → ∃ seen : List TransferRow,
      seen.mapM TransferRow.toTransfer = .ok m.delivered ∧
      seen <+: m.tables.matching w.account w.window.stop ∧
      (seen.map TransferRow.position).Nodup ∧
      m.counted <+: seen ∧
      (m.tables.transfers = t.transfers → seen = t.matching w.account w.window.stop) := by
  have hended := Reading.ended_of_runsTo hsize (by decide) inOrder_empty
    (Reading.upto_start hplaces) (by simp) hrun
  obtain ⟨k, hk, hrequests, hreached⟩ := hended.requests
  refine ⟨⟨k, hk, hrequests⟩, fun request hrequest => ?_, fun book hok => ?_⟩
  · rw [hrequests] at hrequest
    obtain ⟨i, hi, rfl⟩ := List.mem_map.mp hrequest
    have hle : i ≤ k := by
      have := (List.mem_range'_1.mp hi).2
      omega
    have hoffset := Nat.mul_le_mul_right w.config.transferPageSize (Nat.sub_le_sub_right hle 1)
    exact Nat.lt_of_le_of_lt (Nat.le_trans hoffset hreached) hcount
  · obtain ⟨n, hn, hupto, hlast⟩ := hended.pages book hok
    obtain ⟨seen, hseen, hread, hlength, hcounted⟩ := hupto.seen
    have hroom : m.counted.length ≤ n * w.config.transferPageSize := by
      rcases hlast with hle | hmax
      · exact hle
      · have hmul := Nat.mul_le_mul_right w.config.transferPageSize hmax
        rw [Nat.mul_comm] at hfits
        exact Nat.le_trans hupto.counted.length_le (Nat.le_trans hfits hmul)
    rw [List.take_of_length_le hroom] at hcounted
    refine ⟨seen, hread, hseen, ?_, hcounted, fun hsame => ?_⟩
    · exact List.Nodup.sublist (hseen.sublist.map _)
        (hupto.places.matching w.account w.window.stop)
    · have hrows : m.tables.matching w.account w.window.stop =
          t.matching w.account w.window.stop := by
        unfold Tables.matching Tables.transferRows
        rw [hsame]
      rw [hrows] at hseen
      exact hseen.eq_of_length_le ((hupto.whole hn).trans hcounted).length_le

/-- The second transfer is recorded after Alice's only one has been counted and before the page is
read. The page holds both. -/
theorem pages_of_sample_run :
    let w : Walk := make .default ⟨20, 100⟩ Sample.account
    let t : Tables :=
      { Sample.tables [] with transfers := some ((Sample.ledger.take 1).map .ofRecorded) }
    ∃ book m, (w.replayPages 1 (.empty w.account)).run.RunsTo Reading.Step (.start t) (.ok book) m ∧
      m.counted.length = 1 ∧ m.delivered.length = 2 ∧
      ∃ seen : List TransferRow, seen.mapM TransferRow.toTransfer = .ok m.delivered ∧
        seen <+: m.tables.matching w.account w.window.stop ∧
        (seen.map TransferRow.position).Nodup ∧ m.counted <+: seen := by
  intro w t
  let t' : Tables := Sample.tables []
  let both : List Transfer := Sample.ledger.map fun r => r.transfer.stored
  have hplaces : t.DistinctPlaces := List.nodup_singleton _
  have hrecorded : t.Ingested t' := by
    refine .single (.batch (n := 1) (Sample.ledger.drop 1) ?_ ?_)
    · decide +kernel
    · decide +kernel
  have hmatching : t.matching w.account w.window.stop =
      (Sample.ledger.take 1).map TransferRow.ofRecorded := by
    refine (Tables.transfersOf_of_pairwise (by decide +kernel) _ _).trans ?_
    decide +kernel
  have hmatching' : t'.matching w.account w.window.stop =
      Sample.ledger.map TransferRow.ofRecorded := by
    refine (Tables.transfersOf_of_pairwise (by decide +kernel) _ _).trans ?_
    decide +kernel
  let request : PageRequest := ⟨1, w.config.transferPageSize⟩
  have hlisted : t.listTransfersAcross t' w.account w.window.stop request = .ok ⟨both, 1⟩ := by
    rw [Tables.listTransfersAcross_of_rows rfl rfl (by decide), hmatching, hmatching']
    decide +kernel
  let m₁ : Reading := ⟨t', [request], t.matching w.account w.window.stop, both⟩
  -- what is replayed meanwhile is answered by a session over the grown tables
  let s : Session Database := ⟨.empty, .ofTables t'⟩
  obtain ⟨m, hreplay, -, hsame⟩ := @Reading.runsTo_of_session _ _ _ _ _
    (Session.runsTo_answer (w.replayAll (.empty w.account) both).run s) m₁ rfl
  obtain ⟨-, t₂, hgrew, rfl⟩ := Reading.of_runsTo_replayAll inOrder_empty hreplay
  have hsucceeds : (((w.replayAll (.empty w.account) both).run.run
      (Session.answer Database.stores)).run s).1.isOk = true := by decide +kernel
  rcases hend : (((w.replayAll (.empty w.account) both).run.run
      (Session.answer Database.stores)).run s).1 with e | book
  · rw [hend] at hsucceeds
    cases hsucceeds
  rw [hend] at hreplay
  have hrun : (w.replayPages 1 (.empty w.account)).run.RunsTo Reading.Step (.start t) (.ok book)
      { m₁ with tables := t₂ } := by
    have hask : (Attempt.question
        (.transfers w.account w.window.stop request)).run.RunsTo Reading.Step (.start t)
        (.ok (.ok ⟨both, 1⟩)) m₁ := .ask (.page _ _ _ .refl hrecorded hlisted) (.done _ _)
    have hlast : (Page.ofListing request (Listing.mk both 1)).hasNext ≠ true := by decide
    rw [replayPages]
    refine Dialogue.RunsTo.bind hask (Dialogue.RunsTo.bind hreplay ?_)
    show Dialogue.RunsTo _ (ExceptT.run (if h : _ then _ else return book)) _ _ _
    rw [dif_neg hlast]
    exact .done _ _
  have hfits : (t₂.matching w.account w.window.stop).length ≤
      w.config.transferPageSize * maxPage := by
    have hrows : t₂.matching w.account w.window.stop = t'.matching w.account w.window.stop :=
      congrArg (fun rows : Option (List TransferRow) =>
        Tables.transfersOf (rows.getD []) w.account w.window.stop) hsame
    rw [hrows, hmatching']
    decide
  have hcounted : m₁.counted.length = 1 := congrArg List.length hmatching
  have hpages := pages_of_runsTo (by decide) hplaces hrun hfits (by rw [hcounted]; decide)
  obtain ⟨seen, hread, hseen, hnodup, hlast, -⟩ := hpages.2.2 book rfl
  exact ⟨book, _, hrun, hcounted, rfl, seen, hread, hseen, hnodup, hlast⟩

end Walk

end Custodian
