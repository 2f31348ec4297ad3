import Custodian.Proofs.Database.Recording

/-!
# Writes that fail

A transaction is abandoned with an error of its own, and the caller of the writer receives another
one in its place (`Database.class_of_failed_write`): an internal database error, which is never one
to try again. So what was permanent stays so, but a write that failed for a passing reason looks
permanent, and an error that did not come from the database looks as if it had.
-/

namespace Custodian

/-! ## The class of an error -/

namespace Error

/-- Two errors have one code, and both may be tried again or neither. -/
structure SameClass (e e' : Error) : Prop where
  retryable : e.retryable = e'.retryable
  code : e.code = e'.code

/-- No other error has the code of a database error. -/
theorem code_eq_databaseError_iff {e : Error} :
    e.code = "DatabaseError" ↔ ∃ cause, e = .database cause := by
  constructor
  · intro h
    cases e with
    | database cause => exact ⟨cause, rfl⟩
    | custody cause => cases cause <;> simp [code, CustodyError.code] at h
    | _ => simp [code] at h
  · rintro ⟨cause, rfl⟩
    rfl

/-- What a write gives for an error raised in it is in the class of that error only if the database
was at fault for good. -/
theorem sameClass_engine_iff {e : Error} :
    (StorageFault.engine e).toError.SameClass e ↔
      ∃ cause : DatabaseError, e = .database cause ∧ cause.retryable = false := by
  constructor
  · intro h
    obtain ⟨cause, rfl⟩ := code_eq_databaseError_iff.mp h.code.symm
    exact ⟨cause, rfl, h.retryable.symm⟩
  · rintro ⟨cause, rfl, hpermanent⟩
    exact ⟨hpermanent.symm, rfl⟩

end Error

/-- Whether a fault may pass: a connection, a file or a query may work the next time. -/
def StorageFault.passing : StorageFault → Bool
  | connectionFailed _ => true
  | queryFailed _ => true
  | fileUnavailable _ => true
  | rowNotFound => false
  | keyViolated _ => false
  | migrationFailed _ => false
  | engine _ => false

/-- Outside the storage layer a fault may be tried again exactly if it may pass. -/
theorem StorageFault.retryable_toError (fault : StorageFault) :
    fault.toError.retryable = fault.passing := by
  cases fault <;> rfl

/-- Of the faults of the storage layer those that may pass lose their class inside a write. -/
theorem StorageFault.sameClass_engine_iff (fault : StorageFault) :
    (engine fault.toError).toError.SameClass fault.toError ↔ fault.passing = false := by
  rw [← fault.retryable_toError]
  constructor
  · intro h
    exact h.retryable.symm
  · intro hpermanent
    have hcode : fault.toError.code = "DatabaseError" := by cases fault <;> rfl
    exact ⟨hpermanent.symm, hcode.symm⟩

/-! ## The errors of the writes -/

theorem BillingKind.retryable_of_ofCode_eq_error {text : String} {e : Error}
    (h : ofCode text = .error e) : e.retryable = false := by
  unfold ofCode at h
  split at h
  · cases h
  · cases h
    rfl

theorem retryable_of_readDecimal_eq_error {text : String} {e : Error}
    (h : readDecimal text = .error e) : e.retryable = false := by
  unfold readDecimal at h
  rcases hread : Decimal.ofText text with fault | d
  · rw [hread] at h
    cases h
    rfl
  · rw [hread] at h
    cases h

/-- A stored rate that cannot be read is an error of the input. -/
theorem RateRow.retryable_of_toRate_eq_error {r : RateRow} {e : Error} (h : r.toRate = .error e) :
    e.retryable = false := by
  rcases except_bind_eq_error_iff.mp h with hkind | ⟨kind, -, h⟩
  · exact BillingKind.retryable_of_ofCode_eq_error hkind
  · rcases except_bind_eq_error_iff.mp h with hfraction | ⟨fraction, -, h⟩
    · exact retryable_of_readDecimal_eq_error hfraction
    · cases h

namespace Tables

variable {t : Tables} {e : Error}

/-- A query fails at once only if its table is missing, and then it may be tried again. -/
theorem rows_eq_error {α : Type} {name : TableName} {table : Option (List α)}
    (h : Tables.rows name table = .error e) : table = .none ∧ e.retryable = true := by
  unfold Tables.rows at h
  split at h
  · cases h
  · cases h
    exact ⟨rfl, rfl⟩

/-- A row is refused with the error of one of the keys. -/
theorem insertInto_eq_error {α : Type} {rows : List α} {row : α}
    {keys : List ((α → α → Bool) × Error)} (h : insertInto rows row keys = .error e) :
    ∃ key ∈ keys, e = key.2 := by
  unfold insertInto at h
  split at h
  · rename_i hfind
    cases h
    exact ⟨_, List.mem_of_find?_eq_some hfind, rfl⟩
  · cases h

/-- Accounts fail to be recorded only for a passing reason. -/
theorem retryable_of_recordAccounts_eq_error {accounts : List Account}
    (h : t.recordAccounts accounts = .error e) : e.retryable = true := by
  unfold recordAccounts at h
  split at h
  · cases h
  · rcases except_bind_eq_error_iff.mp h with hrows | ⟨rows, -, h⟩
    · exact (rows_eq_error hrows).2
    · cases h

/-- So do transfers. -/
theorem retryable_of_recordTransfers_eq_error {transfers : List RecordedTransfer}
    (h : t.recordTransfers transfers = .error e) : e.retryable = true := by
  unfold recordTransfers at h
  split at h
  · cases h
  · rcases except_bind_eq_error_iff.mp h with hrows | ⟨rows, -, h⟩
    · exact (rows_eq_error hrows).2
    · cases h

/-- A rate fails to be recorded for a passing reason exactly if the table is missing. -/
theorem retryable_of_upsertRate_eq_error {rate : BillingRate} (h : t.upsertRate rate = .error e) :
    e.retryable = true ↔ t.rates = .none := by
  rcases except_bind_eq_error_iff.mp h with hrows | ⟨rows, hrows, h⟩
  · obtain ⟨hmissing, hretryable⟩ := rows_eq_error hrows
    exact iff_of_true hretryable hmissing
  · rcases except_bind_eq_error_iff.mp h with hread | ⟨stored, -, h⟩
    · have hpermanent := RateRow.retryable_of_toRate_eq_error hread
      rw [hpermanent, rows_eq_ok hrows]
      exact iff_of_false Bool.false_ne_true (Option.some_ne_none rows)
    · cases h

/-- So does a snapshot. -/
theorem retryable_of_insertSnapshot_eq_error {row : SnapshotRow}
    (h : t.insertSnapshot row = .error e) : e.retryable = true ↔ t.snapshots = .none := by
  rcases except_bind_eq_error_iff.mp h with hrows | ⟨rows, hrows, h⟩
  · obtain ⟨hmissing, hretryable⟩ := rows_eq_error hrows
    exact iff_of_true hretryable hmissing
  · rcases except_bind_eq_error_iff.mp h with hinsert | ⟨inserted, -, h⟩
    · obtain ⟨key, hkey, rfl⟩ := insertInto_eq_error hinsert
      rw [List.mem_singleton.mp hkey, rows_eq_ok hrows]
      exact iff_of_false Bool.false_ne_true (Option.some_ne_none rows)
    · cases h

end Tables

namespace Database

/-- An abandoned transaction leaves no trace but an internal database error with the text of its
own, which is not to be tried again: of the errors of transactions only permanent ones of the
database keep their class, and of the faults of the storage layer only those that do not pass.
Batches of accounts and of transfers fail only with errors that lose it; rates and snapshots do so
if their table is missing. -/
theorem class_of_failed_write {db : Database} (hwriting : db.writing = true) :
    (∀ (α : Type) (transaction : Transaction α) (e : Error),
      transaction db.tables = .error e →
      ∃ received, (write transaction).run db = (.error received, db) ∧
        received.message = "Database operation failed: Internal database error: " ++ e.message ∧
        received.retryable = false ∧ received.code = "DatabaseError" ∧
        (received.SameClass e ↔
          ∃ cause : DatabaseError, e = .database cause ∧ cause.retryable = false) ∧
        ∀ fault : StorageFault, e = fault.toError →
          (received.SameClass e ↔ fault.passing = false)) ∧
    (∀ batch e, db.tables.recordAccounts batch = .error e → e.retryable = true) ∧
    (∀ batch e, db.tables.recordTransfers batch = .error e → e.retryable = true) ∧
    (∀ rate e, db.tables.upsertRate rate = .error e →
      (e.retryable = true ↔ db.tables.rates = none)) ∧
    ∀ row e, db.tables.insertSnapshot row = .error e →
      (e.retryable = true ↔ db.tables.snapshots = none) := by
  refine ⟨fun α transaction e h => ?_,
    fun _ _ h => Tables.retryable_of_recordAccounts_eq_error h,
    fun _ _ h => Tables.retryable_of_recordTransfers_eq_error h,
    fun _ _ h => Tables.retryable_of_upsertRate_eq_error h,
    fun _ _ h => Tables.retryable_of_insertSnapshot_eq_error h⟩
  refine ⟨(StorageFault.engine e).toError, write_of_error hwriting h, ?_, rfl, rfl,
    Error.sameClass_engine_iff, ?_⟩
  · show "Database operation failed: " ++ ("Internal database error: " ++ e.message) = _
    rw [← String.append_assoc]
    rfl
  · rintro fault rfl
    exact fault.sameClass_engine_iff

/-- Without a table of rates a rate cannot be recorded. The reason may pass, as it may where the
rate is only looked up, but what the caller of the writer receives does not say so. -/
theorem class_of_failed_rate_write :
    let db : Database := .ofTables { Tables.fresh with rates := none }
    let rate : BillingRate := ⟨"bank", "usd#bank", .custody, .one, 0, 0⟩
    ∃ raised received,
      db.tables.findRate rate.scope rate.asset rate.kind = .error raised ∧
      db.tables.upsertRate rate = .error raised ∧ raised.retryable = true ∧
      (write fun t => t.upsertRate rate).run db = (.error received, db) ∧
      received.retryable = false ∧ ¬ received.SameClass raised := by
  intro db rate
  let raised : Error := (Tables.noSuchTable TableName.rates.text).toError
  have hraised : db.tables.upsertRate rate = .error raised := rfl
  obtain ⟨hwrite, -, -, hrates, -⟩ := @class_of_failed_write db rfl
  have hretryable : raised.retryable = true := (hrates rate raised hraised).mpr rfl
  obtain ⟨received, hrun, -, hpermanent, -⟩ :=
    hwrite BillingRate (fun t => t.upsertRate rate) raised hraised
  refine ⟨raised, received, rfl, hraised, hretryable, hrun, hpermanent, fun hsame => ?_⟩
  rw [← hsame.retryable, hpermanent] at hretryable
  cases hretryable

end Database

end Custodian
