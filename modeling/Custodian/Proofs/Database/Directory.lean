import Custodian.Proofs.Database.ReadBack
import Custodian.Proofs.Firsts

/-!
# The directory of rates

Rates are recorded one by one, each for a scope, an asset and a kind of fee. After any history the
table has one row of each key that was recorded and no other (`Database.HasOneEach`), and what is
found of a key depends on the recordings of this key alone: it was created with the first of them,
and its fraction and its time are those of the last (`BillingRate.Sums`). So recordings of different
keys may change places, and the table only notices in the order of its rows.
-/

namespace Custodian

/-! ## Recordings of one key -/

/-- What a rate is for. -/
structure RateKey where
  scope : String
  asset : String
  kind : BillingKind
  deriving DecidableEq, Repr

namespace BillingRate

/-- The key of a rate. -/
def key (r : BillingRate) : RateKey := ⟨r.scope, r.asset, r.kind⟩

/-- The recordings of a key, as they came. -/
def recordingsOf (k : RateKey) (history : List BillingRate) : List BillingRate :=
  history.filter fun r => r.key == k

theorem recordingsOf_append (k : RateKey) (history history' : List BillingRate) :
    recordingsOf k (history ++ history') = recordingsOf k history ++ recordingsOf k history' :=
  List.filter_append ..

theorem recordingsOf_cons (k : RateKey) (rate : BillingRate) (history : List BillingRate) :
    recordingsOf k (rate :: history) =
      if rate.key = k then rate :: recordingsOf k history else recordingsOf k history := by
  unfold recordingsOf
  rw [List.filter_cons]
  simp only [beq_iff_eq]

/-- Neighbours of different keys may change places. -/
theorem recordingsOf_swap {r r' : BillingRate} (h : r.key ≠ r'.key)
    (history later : List BillingRate) (k : RateKey) :
    recordingsOf k (history ++ r :: r' :: later) =
      recordingsOf k (history ++ r' :: r :: later) := by
  rw [recordingsOf_append, recordingsOf_append, recordingsOf_cons, recordingsOf_cons,
    recordingsOf_cons, recordingsOf_cons]
  by_cases hr : r.key = k
  · have hr' : r'.key ≠ k := fun hkey => h (hr.trans hkey.symm)
    rw [if_pos hr, if_neg hr', if_neg hr', if_pos hr]
  · rw [if_neg hr, if_neg hr]

/-- What recordings of one key come to: the last of them, created with the first. -/
def merged? : List BillingRate → Option BillingRate
  | [] => none
  | first :: later =>
    some { (first :: later).getLast (List.cons_ne_nil _ _) with created := first.created }

/-- The rates that are there after a history. -/
def known (history : List BillingRate) : List BillingRate :=
  history.foldl (fun rates r => (r.recorded rates).2) []

variable {k : RateKey} {rates : List BillingRate} {rate : BillingRate}

theorem isFor_eq (k : RateKey) : isFor k.scope k.asset k.kind = fun r => r.key == k := by
  funext r
  obtain ⟨scope, asset, kind⟩ := k
  rw [Bool.eq_iff_iff, beq_iff_eq, key, RateKey.mk.injEq, isFor, Bool.and_eq_true,
    Bool.and_eq_true, beq_iff_eq, beq_iff_eq, beq_iff_eq, and_assoc]

/-- One more recording moves the fraction and the time, and the time of creation only if it is the
first. -/
theorem merged?_concat (recordings : List BillingRate) (rate : BillingRate) :
    merged? (recordings ++ [rate]) =
      some { rate with created := ((merged? recordings).map created).getD rate.created } := by
  cases recordings with
  | nil => rfl
  | cons first later =>
    rw [List.cons_append, merged?]
    simp only [← List.cons_append, List.getLast_concat]
    rfl

/-- A rate whose key is new comes last. -/
theorem recorded_of_new (h : (rates.find? fun r => r.key == rate.key) = none) :
    rate.recorded rates = (rate, rates ++ [rate]) := by
  have hfor : isFor rate.scope rate.asset rate.kind = fun r => r.key == rate.key :=
    isFor_eq rate.key
  unfold recorded
  rw [hfor, h]

/-- Any other rate takes the place of the one with its key, and is created with it. -/
theorem recorded_of_known {old : BillingRate}
    (h : (rates.find? fun r => r.key == rate.key) = some old) :
    rate.recorded rates = ({ rate with created := old.created },
      rates.map fun r =>
        if r.key = rate.key then { rate with created := old.created } else r) := by
  have hfor : isFor rate.scope rate.asset rate.kind = fun r => r.key == rate.key :=
    isFor_eq rate.key
  have hkey : old.key = rate.key := key_of_find?_eq_some h
  unfold recorded
  rw [hfor, h]
  obtain ⟨scope, asset, kind, fraction, created, updated⟩ := old
  cases hkey
  simp only [beq_iff_eq]

/-- What is kept of a recorded rate is as recorded, but created with what was there. -/
theorem recorded_fst_eq (rates : List BillingRate) (rate : BillingRate) :
    (rate.recorded rates).1 =
      { rate with
        created := ((rates.find? fun r => r.key == rate.key).map created).getD rate.created } := by
  rcases hfind : rates.find? (fun r : BillingRate => r.key == rate.key) with _ | old
  · rw [recorded_of_new hfind]
    rfl
  · rw [recorded_of_known hfind]
    rfl

theorem key_recorded_fst (rates : List BillingRate) (rate : BillingRate) :
    (rate.recorded rates).1.key = rate.key := by
  rw [recorded_fst_eq]
  rfl

/-- A recorded rate takes the place of the one with its key, or else comes last. -/
theorem recorded_snd_eq (rates : List BillingRate) (rate : BillingRate) :
    (rate.recorded rates).2 =
      if rate.key ∈ rates.map key then
        rates.map fun r => if r.key = rate.key then (rate.recorded rates).1 else r
      else rates ++ [rate] := by
  rcases hfind : rates.find? (fun r : BillingRate => r.key == rate.key) with _ | old
  · have hnew : rate.key ∉ rates.map key := by
      intro hmem
      obtain ⟨r, hr, hkey⟩ := List.mem_map.mp hmem
      exact List.find?_eq_none.mp hfind r hr (beq_iff_eq.mpr hkey)
    rw [recorded_of_new hfind, if_neg hnew]
  · have hknown : rate.key ∈ rates.map key :=
      List.mem_map.mpr ⟨old, List.mem_of_find?_eq_some hfind, key_of_find?_eq_some hfind⟩
    rw [recorded_of_known hfind, if_pos hknown]

/-- Keys stay where they are, and a new one comes last. -/
theorem map_key_recorded (rates : List BillingRate) (rate : BillingRate) :
    (rate.recorded rates).2.map key =
      if rate.key ∈ rates.map key then rates.map key else rates.map key ++ [rate.key] := by
  rw [recorded_snd_eq]
  split
  · rw [List.map_map]
    refine List.map_congr_left fun r _ => ?_
    show key (if r.key = rate.key then (rate.recorded rates).1 else r) = r.key
    split
    · rename_i hkey
      rw [key_recorded_fst, hkey]
    · rfl
  · rw [List.map_append, List.map_singleton]

/-- A recording shows under its own key. -/
theorem find?_recorded_key (rates : List BillingRate) (rate : BillingRate) :
    ((rate.recorded rates).2.find? fun r => r.key == rate.key) = some (rate.recorded rates).1 := by
  rw [← isFor_eq rate.key]
  exact find?_recorded rates rate

/-- A recording shows under no other key. -/
theorem find?_recorded_of_ne (rates : List BillingRate) (h : rate.key ≠ k) :
    ((rate.recorded rates).2.find? fun r => r.key == k) = rates.find? fun r => r.key == k := by
  rw [recorded_snd_eq]
  split
  · -- rows keep their keys, so the row that is found is where it was
    have hkeys : ((fun r : BillingRate => r.key == k) ∘
        fun r => if r.key = rate.key then (rate.recorded rates).1 else r) =
          fun r => r.key == k := by
      funext r
      show ((if r.key = rate.key then (rate.recorded rates).1 else r).key == k) = (r.key == k)
      split
      · rename_i hkey
        rw [key_recorded_fst, hkey]
      · rfl
    rw [List.find?_map, hkeys]
    rcases hfind : rates.find? (fun r : BillingRate => r.key == k) with _ | found
    · rfl
    · have hfound : found.key ≠ rate.key := by
        rw [key_of_find?_eq_some hfind]
        exact h.symm
      rw [Option.map_some, if_neg hfound]
  · rw [List.find?_append, List.find?_singleton, beq_eq_false_iff_ne.mpr h]
    exact Option.or_none

theorem known_concat (history : List BillingRate) (rate : BillingRate) :
    known (history ++ [rate]) = (rate.recorded (known history)).2 := by
  unfold known
  rw [List.foldl_append]
  rfl

/-- No two rates are there with one key. -/
theorem nodup_known (history : List BillingRate) : ((known history).map key).Nodup := by
  induction history using List.reverseRecOn with
  | nil => exact List.nodup_nil
  | append_singleton history rate ih =>
    rw [known_concat, map_key_recorded]
    split
    · exact ih
    · rename_i hnew
      exact List.nodup_append.mpr ⟨ih, List.nodup_singleton _, fun k hk k' hk' heq =>
        hnew (List.mem_singleton.mp hk' ▸ heq ▸ hk)⟩

/-- What is there of a key after a history is what the recordings of the key come to. -/
theorem find?_known (history : List BillingRate) (k : RateKey) :
    ((known history).find? fun r => r.key == k) = merged? (recordingsOf k history) := by
  induction history using List.reverseRecOn with
  | nil => rfl
  | append_singleton history rate ih =>
    rw [known_concat, recordingsOf, List.filter_append, List.filter_singleton]
    by_cases hkey : rate.key = k
    · subst hkey
      rw [find?_recorded_key, recorded_fst_eq, ih, beq_self_eq_true]
      exact (merged?_concat _ rate).symm
    · rw [find?_recorded_of_ne _ hkey, ih, beq_eq_false_iff_ne.mpr hkey]
      simp [recordingsOf]

/-- A rate is what the recordings of a key come to: created with the first of them, with the
fraction and the time of the last. -/
structure Sums (r : BillingRate) (k : RateKey) (recordings : List BillingRate) : Prop where
  key : r.key = k
  created : recordings.head?.map created = some r.created
  updated : recordings.getLast?.map updated = some r.updated
  fraction : ∃ last ∈ recordings.getLast?, r.fraction.Alike last.fraction

theorem key_of_mem_recordingsOf {history : List BillingRate}
    (h : rate ∈ recordingsOf k history) : rate.key = k :=
  beq_iff_eq.mp (List.mem_filter.mp h).2

/-- A key that was recorded has a rate, which sums its recordings up. -/
theorem exists_merged? {history : List BillingRate} (h : recordingsOf k history ≠ []) :
    ∃ r, merged? (recordingsOf k history) = some r ∧ r.stored.Sums k (recordingsOf k history) := by
  have hkeys : ∀ r ∈ recordingsOf k history, r.key = k := fun _ => key_of_mem_recordingsOf
  generalize recordingsOf k history = recordings at h hkeys ⊢
  obtain ⟨first, later, rfl⟩ := List.exists_cons_of_ne_nil h
  let last := (first :: later).getLast h
  refine ⟨{ last with created := first.created }, rfl, ?_, rfl, ?_, last, ?_, ?_⟩
  · exact hkeys last (List.getLast_mem h)
  · rw [List.getLast?_eq_some_getLast h]
    rfl
  · exact List.getLast?_eq_some_getLast h
  · exact last.fraction.alike_unsignedZero

end BillingRate

/-! ## Histories -/

namespace Database

open BillingRate

/-- Records a rate through the writer. -/
def recordRate (rate : BillingRate) : StateM Database (Except Error BillingRate) :=
  write fun t => t.upsertRate rate

/-- A new database after rates that were recorded one after another. -/
def recordRates (history : List BillingRate) : Database :=
  history.foldl (fun db rate => ((recordRate rate).run db).2) fresh

/-- A database with these rates and nothing else. -/
def holdingRates (rates : List BillingRate) : Database :=
  ofTables { Tables.fresh with rates := some (rates.map .ofRate) }

theorem run_recordRate_holdingRates (rates : List BillingRate) (rate : BillingRate) :
    (recordRate rate).run (holdingRates rates) =
      (.ok (rate.recorded rates).1.stored, holdingRates (rate.recorded rates).2) :=
  write_of_ok rfl (Tables.upsertRate_ofRate rfl rate)

/-- After any history the table holds what is known of each key. -/
theorem recordRates_eq (history : List BillingRate) :
    recordRates history = holdingRates (known history) := by
  induction history using List.reverseRecOn with
  | nil => rfl
  | append_singleton history rate ih =>
    rw [known_concat]
    unfold recordRates at ih ⊢
    rw [List.foldl_append, List.foldl_cons, List.foldl_nil, ih, run_recordRate_holdingRates]

/-- What is found of a key is what its recordings come to. -/
theorem findRate_recordRates (history : List BillingRate) (k : RateKey) :
    (recordRates history).tables.findRate k.scope k.asset k.kind =
      .ok ((merged? (recordingsOf k history)).map BillingRate.stored) := by
  rw [recordRates_eq, ← find?_known, ← isFor_eq]
  exact Tables.findRate_ofRate rfl k.scope k.asset k.kind

/-- The next recording is answered with what is found of its key from then on. -/
theorem run_recordRate (history : List BillingRate) (rate : BillingRate) :
    ∃ r, merged? (recordingsOf rate.key (history ++ [rate])) = some r ∧
      (recordRate rate).run (recordRates history) =
        (.ok r.stored, recordRates (history ++ [rate])) := by
  refine ⟨(rate.recorded (known history)).1, ?_, ?_⟩
  · rw [← find?_known, known_concat, find?_recorded_key]
  · rw [recordRates_eq, recordRates_eq, known_concat, run_recordRate_holdingRates]

/-- Only recordings of custody fees show in what is charged for custody. -/
theorem findCustodyRate_recordRates (history : List BillingRate) (scope asset : String) :
    (recordRates history).tables.findCustodyRate scope asset =
      .ok ((recordingsOf ⟨scope, asset, .custody⟩ history).getLast?.map
        fun last => last.fraction.unsignedZero) := by
  have hfind := findRate_recordRates history ⟨scope, asset, .custody⟩
  unfold Tables.findCustodyRate
  rw [hfind]
  rcases recordingsOf ⟨scope, asset, .custody⟩ history with _ | ⟨first, later⟩
  · rfl
  · rw [List.getLast?_eq_some_getLast (List.cons_ne_nil first later)]
    rfl

/-! ## One row of each key -/

/-- The table has, of every key that was recorded, one row of what its recordings come to. It has no
other rows, and all else is as in a new database. -/
structure HasOneEach (db : Database) (history : List BillingRate) : Prop where
  rates : ∃ rates : List BillingRate, db.tables.rates = some (rates.map .ofRate) ∧
    (rates.map key).Nodup ∧ ∀ r, r ∈ rates ↔ merged? (recordingsOf r.key history) = some r
  elsewhere : { db with tables := { db.tables with rates := some [] } } = fresh

theorem hasOneEach_recordRates (history : List BillingRate) :
    (recordRates history).HasOneEach history := by
  rw [recordRates_eq]
  refine ⟨⟨known history, rfl, nodup_known history, fun r => ?_⟩, rfl⟩
  rw [mem_iff_find?_of_nodup (nodup_known history), find?_known]

/-! ## The order of recordings -/

/-- The tables have the same rates, in whatever order, find the same of them and answer the next
recording the same. -/
structure SameRates (db db' : Database) : Prop where
  rows : ∃ rows rows', db.tables.rates = some rows ∧ db'.tables.rates = some rows' ∧
    rows.Perm rows'
  findRate : db.tables.findRate = db'.tables.findRate
  findCustodyRate : db.tables.findCustodyRate = db'.tables.findCustodyRate
  recordRate : ∀ rate, ((recordRate rate).run db).1 = ((recordRate rate).run db').1

variable {history history' : List BillingRate}

/-- Where each key has its recordings in one order, recordings of different keys may be mixed in any
way. -/
theorem sameRates_recordRates (h : ∀ k, recordingsOf k history = recordingsOf k history') :
    (recordRates history).SameRates (recordRates history') := by
  have hperm : (known history).Perm (known history') := by
    refine perm_of_find?_eq (nodup_known history) (nodup_known history') fun k => ?_
    rw [find?_known, find?_known, h]
  have hfind : (recordRates history).tables.findRate = (recordRates history').tables.findRate := by
    funext scope asset kind
    have hkey := h ⟨scope, asset, kind⟩
    have hfound := findRate_recordRates history ⟨scope, asset, kind⟩
    rw [hkey, ← findRate_recordRates history'] at hfound
    exact hfound
  refine ⟨?_, hfind, ?_, fun rate => ?_⟩
  · rw [recordRates_eq, recordRates_eq]
    exact ⟨_, _, rfl, rfl, hperm.map _⟩
  · funext scope asset
    rw [findCustodyRate_recordRates, findCustodyRate_recordRates, h]
  · obtain ⟨r, hr, hrun⟩ := run_recordRate history rate
    obtain ⟨r', hr', hrun'⟩ := run_recordRate history' rate
    have hsame : recordingsOf rate.key (history ++ [rate]) =
        recordingsOf rate.key (history' ++ [rate]) := by
      rw [recordingsOf, recordingsOf, List.filter_append, List.filter_append]
      exact congrArg (· ++ _) (h rate.key)
    rw [hsame, hr'] at hr
    cases hr
    rw [hrun, hrun']

/-- A recording of one key does not show in what is found of another one. -/
theorem findRate_recordRates_of_ne {rate : BillingRate} {k : RateKey} (h : rate.key ≠ k)
    (history : List BillingRate) :
    (recordRates (history ++ [rate])).tables.findRate k.scope k.asset k.kind =
      (recordRates history).tables.findRate k.scope k.asset k.kind := by
  rw [findRate_recordRates, findRate_recordRates, recordingsOf_append, recordingsOf_cons, if_neg h]
  exact congrArg (fun r => Except.ok (Option.map BillingRate.stored (merged? r)))
    (List.append_nil _)

/-- The directory keeps one rate of each key. After any history of recordings the table has one row
of every key that was recorded and no other row. Of a key that was never recorded nothing is found,
and of any other one a rate that was created with the first recording of the key and has the
fraction and the time of the last. Each recording is answered with what is found of its key from
then on, and does not show in what is found of other keys. Recordings may be mixed in any way that
leaves those of each key in order, in particular neighbours of different keys may change places, and
only the recordings of custody fees show in what is charged for custody. -/
theorem one_rate_of_each_key (history : List BillingRate) :
    (recordRates history).HasOneEach history ∧
    (∀ k : RateKey, recordingsOf k history = [] →
      (recordRates history).tables.findRate k.scope k.asset k.kind = .ok none) ∧
    (∀ k : RateKey, recordingsOf k history ≠ [] → ∃ found,
      (recordRates history).tables.findRate k.scope k.asset k.kind = .ok (some found) ∧
        found.Sums k (recordingsOf k history)) ∧
    (∀ rate : BillingRate, ∃ found,
      (recordRate rate).run (recordRates history) = (.ok found, recordRates (history ++ [rate])) ∧
        (recordRates (history ++ [rate])).tables.findRate rate.scope rate.asset rate.kind =
          .ok (some found)) ∧
    (∀ (rate : BillingRate) (k : RateKey), rate.key ≠ k →
      (recordRates (history ++ [rate])).tables.findRate k.scope k.asset k.kind =
        (recordRates history).tables.findRate k.scope k.asset k.kind) ∧
    (∀ history', (∀ k, recordingsOf k history = recordingsOf k history') →
      (recordRates history).SameRates (recordRates history')) ∧
    (∀ r r' later, r.key ≠ r'.key →
      (recordRates (history ++ r :: r' :: later)).SameRates
        (recordRates (history ++ r' :: r :: later))) ∧
    ∀ scope asset,
      (recordRates history).tables.findCustodyRate scope asset =
        .ok ((recordingsOf ⟨scope, asset, .custody⟩ history).getLast?.map
          fun last => last.fraction.unsignedZero) := by
  refine ⟨hasOneEach_recordRates history, fun k hk => ?_, fun k hk => ?_, fun rate => ?_,
    fun rate k h => findRate_recordRates_of_ne h history, fun _ => sameRates_recordRates,
    fun r r' later h => sameRates_recordRates (recordingsOf_swap h history later),
    findCustodyRate_recordRates history⟩
  · rw [findRate_recordRates, hk]
    rfl
  · obtain ⟨r, hr, hsums⟩ := exists_merged? hk
    refine ⟨r.stored, ?_, hsums⟩
    rw [findRate_recordRates, hr]
    rfl
  · obtain ⟨r, hr, hrun⟩ := run_recordRate history rate
    refine ⟨r.stored, hrun, ?_⟩
    have hfind := findRate_recordRates (history ++ [rate]) rate.key
    rw [hr] at hfind
    exact hfind

/-- A custody fee that is recorded twice, with a transfer fee of the same asset between, is created
with the first recording and charged as in the second; the transfer fee may as well come last, and
nothing is found of a withdrawal fee. -/
theorem rate_of_custody_recorded_twice :
    let scope := "custody_billing@bank"
    let rate (kind : BillingKind) (fraction : Decimal) (time : Int64) : BillingRate :=
      ⟨scope, "usd#bank", kind, fraction, time, time⟩
    let first := rate .custody ⟨false, 1, 3, by decide, by decide⟩ 10
    let between := rate .transfer .one 15
    let second := rate .custody ⟨false, 20, 4, by decide, by decide⟩ 20
    let history := [first, between, second]
    (recordRates history).tables.findRate scope "usd#bank" .withdrawal = .ok none ∧
    (∃ found, (recordRates history).tables.findRate scope "usd#bank" .custody = .ok (some found) ∧
      found.created = 10 ∧ found.updated = 20 ∧ found.fraction.scale = 4) ∧
    (recordRates [first, between]).tables.findRate scope "usd#bank" .custody =
      (recordRates [first]).tables.findRate scope "usd#bank" .custody ∧
    (recordRates history).SameRates (recordRates [first, second, between]) ∧
    (recordRates history).SameRates (recordRates [between, first, second]) := by
  intro scope rate first between second history
  obtain ⟨-, hnone, hfound, -, -, hmixed, -, -⟩ := one_rate_of_each_key history
  obtain ⟨-, -, -, -, hapart, -, hswap, -⟩ := one_rate_of_each_key [first]
  refine ⟨hnone ⟨scope, "usd#bank", .withdrawal⟩ (by decide), ?_, ?_, ?_, ?_⟩
  · obtain ⟨found, hfind, hsums⟩ := hfound ⟨scope, "usd#bank", .custody⟩ (by decide)
    obtain ⟨last, hlast, halike⟩ := hsums.fraction
    cases hlast
    refine ⟨found, hfind, ?_, ?_, halike.scale⟩
    · exact (Option.some.inj hsums.created).symm
    · exact (Option.some.inj hsums.updated).symm
  · exact hapart between ⟨scope, "usd#bank", .custody⟩ (by decide)
  · exact hswap between second [] (by decide)
  · refine hmixed [between, first, second] fun k => ?_
    exact recordingsOf_swap (by decide) [] [second] k

end Database

end Custodian
