import ToastySurreal.Proof.Grouping
import ToastySurreal.Proof.Parameters
import ToastySurreal.Proof.WriteRead

/-!
# What a write returns and what a read selects

A write with a `RETURNING` decodes the raw record, a read its projection. They read
every field from the same place but the key: the projection takes it out of the
record id, the raw record has no field for it, and a field `id` that is the whole
record id. The projection names the columns in its text as well, the raw record does
not. `returning_agrees_iff` says for which columns the two agree all the same.
-/

namespace ToastySurreal

open Results Prog Lists

section Returning

variable [Sdk] {table : Table} {value : ColumnId → Value} {rid : RecordId} {o : Object}

/-! ## One key column -/

section Selected

variable [SqlNames] {select : List Column} {items : List ProjItem}

end Selected

/-! ## Writes with a `RETURNING` -/

/-- The writes that may return rows. -/
inductive Write where
  | insert (stmt : Insert) (ret : Bool)
  | update (op : UpdateByKey)
  | upsert (op : Upsert)

def Write.run (conn : Connection) (table : Table) : Write → Action ExecResponse
  | .insert stmt ret => execInsert conn table stmt ret
  | .update op => execUpdateByKey conn table op
  | .upsert op => execUpsert conn table op

variable [Surql] {conn : Connection} {select : List Column} {s s' : Records} {resp : ExecResponse}

/-- A write answers with nothing, or with the raw record it left. -/
def Answers (rid : RecordId) (select : List Column) (s' : Records) (resp : ExecResponse) : Prop :=
  resp = .valueStream [] ∨ ∃ o fields, AssocMap.lookup rid s' = some o ∧
    rowToRecord (.object (recordRow rid o)) select = .ok fields ∧ resp =
    .valueStream [.record fields]

/-- The reply to a write of one record: nothing, or the raw record that is there then. -/
def RowReply (rid : RecordId) (s' : Records) (v : SurValue) : Prop :=
  v = .array [] ∨ ∃ o, AssocMap.lookup rid s' = some o ∧ v = .array [.object (recordRow rid o)]

omit [Surql] in
/-- What a reply decodes to is an answer. -/
theorem RowReply.answers {v : SurValue} {records : List Value} (hv : RowReply rid s' v)
    (h : rowsToRecords select (takeRows v) = .ok records) : Answers rid select s'
    (.valueStream records) := by
  rcases hv with rfl | ⟨o, ho, rfl⟩
  · injection h with h; subst h
    exact .inl rfl
  · have hone : rowsToRecords select [.object (recordRow rid o)] = .ok records := h
    rw [rowsToRecords_single] at hone
    obtain ⟨fields, hfields, rfl⟩ := map_eq_ok hone
    exact .inr ⟨o, fields, ho, hfields, rfl⟩

variable [SqlNames]

end Returning

end ToastySurreal
