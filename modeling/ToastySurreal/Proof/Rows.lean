import ToastySurreal.Op.Read
import ToastySurreal.Op.Write
import ToastySurreal.Store
import ToastySurreal.Proof.Codec

/-!
# Rows split into a key and a content, and read back

A row of a source goes to two places: the key columns into the record id, every other
value into the content. These lemmas say what ends up where, whatever the order of
the target columns, and what a projection reads from it.
-/

namespace ToastySurreal

open Results

/-! ## The values of a row -/

/-- The literal at a position. -/
def rowAt (row : Row) (position : Nat) : Value := ((row[position]?).join).getD .null

/-- The target columns with their values. -/
def rowPairs (row : Row) : List ColumnId → Nat → List (ColumnId × Value)
  | [], _ => []
  | cid :: columns, position => (cid, rowAt row position) :: rowPairs row columns (position + 1)

/-- The value a row gives a column; a column that is no target is null. -/
def valueOf (row : Row) (columns : List ColumnId) (cid : ColumnId) : Value :=
  (AssocMap.lookup cid (rowPairs row columns 0)).getD .null

theorem rowPairs_keys (row : Row) : ∀ (columns : List ColumnId) (position : Nat),
    (rowPairs row columns position).map Prod.fst = columns
  | [], _ => rfl
  | cid :: columns, position => by
      rw [rowPairs, List.map_cons, rowPairs_keys row columns]

theorem valueOf_of_mem {row : Row} {columns : List ColumnId} (hn : columns.Nodup)
    {p : ColumnId × Value} (hp : p ∈ rowPairs row columns 0) : valueOf row columns p.1 = p.2 := by
  rw [valueOf, AssocMap.lookup_of_mem (by rwa [rowPairs_keys]) hp]
  rfl

theorem mem_rowPairs {row : Row} {columns : List ColumnId} (hn : columns.Nodup) {cid : ColumnId}
    (h : cid ∈ columns) : (cid, valueOf row columns cid) ∈ rowPairs row columns 0 := by
  have hk : cid ∈ (rowPairs row columns 0).map Prod.fst := by rwa [rowPairs_keys]
  obtain ⟨p, hp, rfl⟩ := List.mem_map.mp hk
  rw [valueOf_of_mem hn hp]
  exact hp

theorem valueOf_of_not_mem {row : Row} {columns : List ColumnId} {cid : ColumnId}
    (h : cid ∉ columns) : valueOf row columns cid = .null := by
  rw [valueOf, AssocMap.lookup_eq_none.mpr (by rwa [rowPairs_keys])]
  rfl

/-! ## Key positions -/

section Keys

variable {table : Table}

theorem keyPosition_getElem {cid : ColumnId} (h : cid ∈ table.primaryKey) :
    table.primaryKey[keyPosition table cid]? = some cid := by
  obtain ⟨i, hi⟩ := Option.isSome_iff_exists.mp (List.isSome_idxOf?.mpr h)
  obtain ⟨hlt, hget, _⟩ := List.idxOf?_eq_some_iff.mp hi
  rw [keyPosition, hi, Option.getD_some, List.getElem?_eq_getElem hlt, hget]

theorem keyPosition_inj {c d : ColumnId} (hc : c ∈ table.primaryKey) (hd : d ∈ table.primaryKey)
    (h : keyPosition table c = keyPosition table d) : c = d := by
  have hget := keyPosition_getElem hc
  rw [h, keyPosition_getElem hd] at hget
  exact (Option.some.inj hget).symm

theorem keyPosition_of_getElem {i : Nat} {cid : ColumnId} (h : table.primaryKey[i]? = some cid) :
    keyPosition table cid = i := by
  have hmem : cid ∈ table.primaryKey := List.mem_of_getElem? h
  have hget := keyPosition_getElem hmem
  obtain ⟨hi, hgi⟩ := List.getElem?_eq_some_iff.mp h
  obtain ⟨hj, hgj⟩ := List.getElem?_eq_some_iff.mp hget
  exact (List.Nodup.getElem_inj_iff table.key_nodup).mp (hgj.trans hgi.symm)

/-- Key columns in key order come at increasing positions. -/
theorem keyPosition_sorted :
    table.primaryKey.Pairwise fun c d => keyPosition table c ≤ keyPosition table d := by
  rw [List.pairwise_iff_getElem]
  intro i j hi hj hij
  have hpi : keyPosition table table.primaryKey[i] = i :=
    keyPosition_of_getElem (List.getElem?_eq_getElem hi)
  have hpj : keyPosition table table.primaryKey[j] = j :=
    keyPosition_of_getElem (List.getElem?_eq_getElem hj)
  omega

/-- A key as the engine writes it: a scalar for one column, a record for several. -/
def keyRecord : List Value → Value
  | [v] => v
  | vs => .record vs

/-- **The key comes out in key order**, whatever the order of the target columns. -/
theorem pkToValue_eq {value : ColumnId → Value} {cids : List ColumnId}
    (h : cids.Perm table.primaryKey) :
    pkToValue (cids.map fun cid => (keyPosition table cid, value cid)) =
      keyRecord (table.primaryKey.map value) := by
  have hsort : (cids.map fun cid => (keyPosition table cid, value cid)).insertionSort
      (fun a b => a.1 ≤ b.1) =
        table.primaryKey.map fun cid => (keyPosition table cid, value cid) := by
    have hperm := (List.perm_insertionSort (fun a b : Nat × Value => a.1 ≤ b.1)
      (cids.map fun cid => (keyPosition table cid, value cid))).trans (h.map _)
    refine @List.Perm.eq_of_pairwise _ (fun a b : Nat × Value => a.1 ≤ b.1) _ _ ?_ ?_ ?_ hperm
    · intro a b ha hb hab hba
      obtain ⟨c, hc, rfl⟩ := List.mem_map.mp (hperm.subset ha)
      obtain ⟨d, hd, rfl⟩ := List.mem_map.mp hb
      have hcd : c = d := keyPosition_inj hc hd (Nat.le_antisymm hab hba)
      rw [hcd]
    · have htotal : Std.Total fun a b : Nat × Value => a.1 ≤ b.1 :=
        ⟨fun a b => Nat.le_total a.1 b.1⟩
      have htrans : IsTrans (Nat × Value) fun a b => a.1 ≤ b.1 :=
        ⟨fun a b c hab hbc => Nat.le_trans hab hbc⟩
      exact List.pairwise_insertionSort _ _
    · rw [List.pairwise_map]
      exact keyPosition_sorted
  rw [pkToValue, hsort]
  match table.primaryKey with
  | [] => rfl
  | [c] => rfl
  | c :: d :: cs => simp [keyRecord]

end Keys

/-! ## Splitting a row -/

section Split

variable [Sdk] {table : Table} {op : String} {row : Row}

omit [Sdk] in
theorem rowValue_ok {position : Nat} {v : Value} (h : rowValue op row position = .ok v) :
    v = rowAt row position := by
  unfold rowValue at h
  split at h
  · rename_i value hv
    injection h with h; subst h
    rw [rowAt, hv]; rfl
  · exact absurd h (by simp)

/-- The key columns' values, with their positions in the key. -/
def keyPairs (table : Table) (pairs : List (ColumnId × Value)) : List (Nat × Value) :=
  (pairs.filter fun p => isPrimaryKey table (table.column p.1)).map fun p =>
    (keyPosition table (table.column p.1).id, p.2)

omit [Sdk] in
theorem keyPairs_cons (p : ColumnId × Value) (pairs : List (ColumnId × Value)) :
    keyPairs table (p :: pairs) = if isPrimaryKey table (table.column p.1) = true then
      (keyPosition table (table.column p.1).id, p.2) :: keyPairs table pairs
      else keyPairs table pairs := by
  by_cases h : isPrimaryKey table (table.column p.1) = true
  · simp [keyPairs, h]
  · simp [keyPairs, h]

/-- **What splitting a row does**: the key's values are collected, and a field is
written by every other column that is not null and by nothing else. -/
theorem splitRow_spec : ∀ {columns : List ColumnId} {position : Nat} {content content' : Object}
    {pk pk' : List (Nat × Value)},
    splitRow op table row columns position content pk = .ok (content', pk') →
    pk' = pk ++ keyPairs table (rowPairs row columns position) ∧
    (∀ name, (∀ p ∈ rowPairs row columns position, (table.column p.1).name = name →
      isPrimaryKey table (table.column p.1) = true ∨ p.2 = .null) →
      AssocMap.lookup name content' = AssocMap.lookup name content)
  | [], position, content, content', pk, pk', h => by
      rw [splitRow] at h
      injection h with h; injection h with h1 h2; subst h1 h2
      exact ⟨by simp [keyPairs, rowPairs], fun _ _ => rfl⟩
  | cid :: columns, position, content, content', pk, pk', h => by
      rw [splitRow] at h
      obtain ⟨v, hv, h⟩ := bind_eq_ok h
      have hval := rowValue_ok hv
      rw [rowPairs, keyPairs_cons, ← hval]
      split at h
      · rename_i hkey
        obtain ⟨hpk, hfield⟩ := splitRow_spec h
        refine ⟨by rw [if_pos hkey, hpk, List.append_assoc]; rfl, ?_⟩
        intro name hname
        exact hfield name fun p hp => hname p (List.mem_cons_of_mem _ hp)
      · rename_i hkey
        rw [if_neg hkey]
        split at h
        · obtain ⟨hpk, hfield⟩ := splitRow_spec h
          exact ⟨hpk, fun name hname => hfield name fun p hp => hname p (List.mem_cons_of_mem _ hp)⟩
        · rename_i hnull
          obtain ⟨stored, hstored, h⟩ := bind_eq_ok h
          obtain ⟨hpk, hfield⟩ := splitRow_spec h
          refine ⟨hpk, fun name hname => ?_⟩
          rw [hfield name fun p hp => hname p (List.mem_cons_of_mem _ hp)]
          refine AssocMap.lookup_insert_ne ?_ _ _
          rintro rfl
          rcases hname _ (List.mem_cons_self ..) rfl with hk | hn
          · exact hkey hk
          · exact hnull (Value.isNull_iff.mpr hn)

omit [Sdk] in
/-- A column that is no later target shares no name with a later one. -/
theorem rowPairs_name_ne {cid : ColumnId} {columns : List ColumnId} {position : Nat}
    (hids : ∀ c ∈ cid :: columns, c ∈ table.columns.map Column.id) (hcid : cid ∉ columns)
    {p : ColumnId × Value} (hp : p ∈ rowPairs row columns position) :
    (table.column p.1).name ≠ (table.column cid).name := by
  intro hname
  have hmem : p.1 ∈ columns := by
    rw [← rowPairs_keys row columns position]; exact List.mem_map_of_mem hp
  obtain ⟨hpc, hpid⟩ := Table.column_mem (hids p.1 (List.mem_cons_of_mem _ hmem))
  obtain ⟨hcc, hccid⟩ := Table.column_mem (hids cid List.mem_cons_self)
  have hsame : p.1 = cid := by rw [← hpid, ← hccid, Table.eq_of_name hpc hcc hname]
  exact hcid (hsame ▸ hmem)

/-- A non-key value that is not null is encoded into its field. -/
theorem splitRow_stored : ∀ {columns : List ColumnId} {position : Nat} {content content' : Object}
    {pk pk' : List (Nat × Value)}, columns.Nodup →
    (∀ cid ∈ columns, cid ∈ table.columns.map Column.id) →
    splitRow op table row columns position content pk = .ok (content', pk') →
    ∀ p ∈ rowPairs row columns position, isPrimaryKey table (table.column p.1) = false →
    p.2 ≠ .null → ∃ stored, toSurrealForColumn p.2 (table.column p.1) = .ok stored ∧
      AssocMap.lookup (table.column p.1).name content' = some stored
  | [], position, content, content', pk, pk', _, _, _, p, hp, _, _ => by
      rw [rowPairs] at hp; exact absurd hp List.not_mem_nil
  | cid :: columns, position, content, content', pk, pk', hn, hids, h, p, hp, hk, hnull => by
      obtain ⟨hcid, hn⟩ := List.nodup_cons.mp hn
      have hids' := fun c hc => hids c (List.mem_cons_of_mem _ hc)
      rw [splitRow] at h
      obtain ⟨v, hv, h⟩ := bind_eq_ok h
      rw [rowPairs, ← rowValue_ok hv] at hp
      rcases List.mem_cons.mp hp with rfl | hp
      · rw [if_neg (by simp [hk]), if_neg (by simpa using hnull)] at h
        obtain ⟨stored, hstored, h⟩ := bind_eq_ok h
        refine ⟨stored, hstored, ?_⟩
        -- no later column has the same name
        have hrest : ∀ q ∈ rowPairs row columns (position + 1),
            (table.column q.1).name = (table.column cid).name →
            isPrimaryKey table (table.column q.1) = true ∨ q.2 = .null :=
          fun q hq hname => absurd hname (rowPairs_name_ne hids hcid hq)
        rw [(splitRow_spec h).2 _ hrest, AssocMap.lookup_insert_self]
      · split at h
        · exact splitRow_stored hn hids' h p hp hk hnull
        · split at h
          · exact splitRow_stored hn hids' h p hp hk hnull
          · obtain ⟨_, _, h⟩ := bind_eq_ok h
            exact splitRow_stored hn hids' h p hp hk hnull

omit [Sdk] in
/-- The pairs of the key columns, where a row gives them these values. -/
theorem keyPairs_of_values {value : ColumnId → Value} :
    ∀ {columns : List ColumnId} {position : Nat},
    (∀ p ∈ rowPairs row columns position, p.1 ∈ table.primaryKey → p.2 = value p.1) →
    (∀ cid ∈ columns, cid ∈ table.columns.map Column.id) →
    keyPairs table (rowPairs row columns position) =
      (columns.filter fun cid => table.primaryKey.contains cid).map fun cid =>
        (keyPosition table cid, value cid)
  | [], _, _, _ => rfl
  | cid :: columns, position, hval, hids => by
      have hid := (Table.column_mem (hids cid List.mem_cons_self)).2
      have hv : cid ∈ table.primaryKey → rowAt row position = value cid := hval _ List.mem_cons_self
      rw [rowPairs, keyPairs_cons, keyPairs_of_values
        (fun p hp => hval p (List.mem_cons_of_mem _ hp)) fun c hc =>
        hids c (List.mem_cons_of_mem _ hc)]
      simp only [isPrimaryKey, hid]
      by_cases hk : table.primaryKey.contains cid = true
      · rw [if_pos hk, List.filter_cons_of_pos hk, List.map_cons, hv (by simpa using hk)]
      · rw [if_neg hk, List.filter_cons_of_neg hk]

omit [Sdk] in
/-- The pairs of the key columns, as a permutation of the key. -/
theorem keyPairs_rowPairs {columns : List ColumnId} (hn : columns.Nodup)
    (hids : ∀ cid ∈ columns, cid ∈ table.columns.map Column.id) :
    keyPairs table (rowPairs row columns 0) =
      (columns.filter fun cid => table.primaryKey.contains cid).map fun cid =>
        (keyPosition table cid, valueOf row columns cid) :=
  keyPairs_of_values (fun _ hp _ => (valueOf_of_mem hn hp).symm) hids

omit [Sdk] in
theorem filter_key_perm {columns : List ColumnId} (hn : columns.Nodup)
    (hkey : ∀ cid ∈ table.primaryKey, cid ∈ columns) :
    (columns.filter fun cid => table.primaryKey.contains cid).Perm table.primaryKey := by
  refine (List.perm_ext_iff_of_nodup (hn.filter _) table.key_nodup).mpr fun cid => ?_
  simp only [List.mem_filter, List.contains_iff_mem]
  exact ⟨fun h => h.2, fun h => ⟨hkey cid h, h⟩⟩

/-- What `build_row` makes of a row: the record id of its key values, and a content whose
fields are the encoded values of the other columns that are not null. -/
structure Built (table : Table) (row : Row) (columns : List ColumnId) (rid : RecordId)
    (content : Object) : Prop where
  rid : recordId table (keyRecord (table.primaryKey.map (valueOf row columns))) = .ok rid
  stored : ∀ c ∈ table.columns, isPrimaryKey table c = false → valueOf row columns c.id ≠ .null →
    ∃ s, toSurrealForColumn (valueOf row columns c.id) c = .ok s ∧
      AssocMap.lookup c.name content = some s
  absent : ∀ c ∈ table.columns, isPrimaryKey table c = false → valueOf row columns c.id = .null →
    AssocMap.lookup c.name content = none

/-- The content of a row: every value outside the key that is not null, and nothing else. -/
theorem buildRow_content {columns : List ColumnId} {rid : RecordId} {content : Object}
    (hn : columns.Nodup) (hids : ∀ cid ∈ columns, cid ∈ table.columns.map Column.id)
    (h : buildRow op table columns row = .ok (rid, content)) {c : Column} (hc : c ∈ table.columns)
    (hk : isPrimaryKey table c = false) :
    (valueOf row columns c.id ≠ .null → ∃ s, toSurrealForColumn (valueOf row columns c.id) c =
      .ok s ∧ AssocMap.lookup c.name content = some s) ∧
    (valueOf row columns c.id = .null → AssocMap.lookup c.name content = none) := by
  unfold buildRow at h
  obtain ⟨⟨content', pk⟩, hsplit, h⟩ := bind_eq_ok h
  obtain ⟨rid', _, h⟩ := bind_eq_ok h
  injection h with h; injection h with h1 h2; subst h1 h2
  constructor
  · intro hnull
    have hmem : c.id ∈ columns := by
      by_contra hno
      exact hnull (valueOf_of_not_mem hno)
    have hst := splitRow_stored hn hids hsplit _ (@mem_rowPairs row _ hn _ hmem)
    rw [Table.column_id hc] at hst
    exact hst hk hnull
  · intro hnull
    rw [(splitRow_spec hsplit).2 c.name, AssocMap.lookup_nil]
    intro p hp hname
    have hpc : p.1 ∈ columns := by
      rw [← rowPairs_keys row columns 0]; exact List.mem_map_of_mem hp
    obtain ⟨hpmem, hpid⟩ := Table.column_mem (hids p.1 hpc)
    have hsame := Table.eq_of_name hpmem hc hname
    rw [hsame] at hpid
    right
    rw [← valueOf_of_mem hn hp, ← hpid, hnull]

theorem buildRow_built {columns : List ColumnId} {rid : RecordId} {content : Object}
    (hn : columns.Nodup) (hids : ∀ cid ∈ columns, cid ∈ table.columns.map Column.id)
    (hkey : ∀ cid ∈ table.primaryKey, cid ∈ columns)
    (h : buildRow op table columns row = .ok (rid, content)) :
    Built table row columns rid content := by
  refine ⟨?_, fun c hc hk => (buildRow_content hn hids h hc hk).1,
    fun c hc hk => (buildRow_content hn hids h hc hk).2⟩
  unfold buildRow at h
  obtain ⟨⟨content', pk⟩, hsplit, h⟩ := bind_eq_ok h
  obtain ⟨rid', hrid, h⟩ := bind_eq_ok h
  injection h with h; injection h with h1 h2; subst h1 h2
  rw [(splitRow_spec hsplit).1, List.nil_append, keyPairs_rowPairs hn hids,
    pkToValue_eq (filter_key_perm hn hkey)] at hrid
  exact hrid

/-- A record id names its table. -/
theorem recordId_table {key : Value} {rid : RecordId} (h : recordId table key = .ok rid) :
    rid.table = table.name := by
  unfold recordId at h
  obtain ⟨k, _, h⟩ := bind_eq_ok h
  injection h with h; subst h
  rfl

theorem buildRow_table {columns : List ColumnId} {rid : RecordId} {content : Object}
    (h : buildRow op table columns row = .ok (rid, content)) : rid.table = table.name := by
  unfold buildRow at h
  obtain ⟨⟨content', pk⟩, _, h⟩ := bind_eq_ok h
  obtain ⟨rid', hrid, h⟩ := bind_eq_ok h
  injection h with h; injection h with h _; subst h
  exact recordId_table hrid

end Split

/-! ## The key of a row -/

section KeyOfRow

variable {table : Table} {value : ColumnId → Value} {columns : List ColumnId} {row : Row}

/-- Target columns that list each key column once, in any order. -/
structure ListsKey (table : Table) (columns : List ColumnId) : Prop where
  known : ∀ cid ∈ columns, cid ∈ table.columns.map Column.id
  once : (columns.filter fun cid => table.primaryKey.contains cid).Perm table.primaryKey

/-- The row gives the key columns these values. -/
def GivesKey (table : Table) (value : ColumnId → Value) (columns : List ColumnId) (row : Row) :
    Prop :=
  ∀ (i : Nat) (cid : ColumnId), columns[i]? = some cid → cid ∈ table.primaryKey →
    row[i]? = some (some (value cid))

theorem rowPairs_getElem : ∀ {columns : List ColumnId} {position : Nat} {p : ColumnId × Value},
    p ∈ rowPairs row columns position →
    ∃ i, columns[i]? = some p.1 ∧ p.2 = rowAt row (position + i)
  | [], _, _, hp => absurd hp List.not_mem_nil
  | cid :: columns, position, p, hp => by
      rw [rowPairs] at hp
      rcases List.mem_cons.mp hp with rfl | hp
      · exact ⟨0, rfl, rfl⟩
      · obtain ⟨i, hi, hv⟩ := rowPairs_getElem hp
        exact ⟨i + 1, by simpa using hi, by rw [hv]; congr 1; omega⟩

theorem GivesKey.pairs (h : GivesKey table value columns row) :
    ∀ p ∈ rowPairs row columns 0, p.1 ∈ table.primaryKey → p.2 = value p.1 := by
  intro p hp hk
  obtain ⟨i, hi, hv⟩ := rowPairs_getElem hp
  rw [hv, Nat.zero_add, rowAt, h i p.1 hi hk]
  rfl

variable [Sdk]

/-- **The record id of a row** is the one of its key in key order. -/
theorem buildRow_eq {op : String} (hl : ListsKey table columns)
    (hv : GivesKey table value columns row) : buildRow op table columns row = (do
      let split ← splitRow op table row columns 0 [] []
      let rid ← recordId table (keyRecord (table.primaryKey.map value))
      .ok (rid, split.1)) := by
  unfold buildRow
  cases hsplit : splitRow op table row columns 0 [] [] with
  | error e => rfl
  | ok split =>
      obtain ⟨content, pk⟩ := split
      obtain ⟨hpk, _⟩ := splitRow_spec hsplit
      rw [List.nil_append, keyPairs_of_values hv.pairs hl.known] at hpk
      have hkey : pkToValue pk = keyRecord (table.primaryKey.map value) := by
        rw [hpk]
        exact pkToValue_eq hl.once
      show (recordId table (pkToValue pk) >>= _) = (recordId table _ >>= _)
      rw [hkey]

/-- Every other entry of the row is a literal that its column can store. -/
def Storable (table : Table) (columns : List ColumnId) (row : Row) : Prop :=
  ∀ (i : Nat) (cid : ColumnId), columns[i]? = some cid → cid ∉ table.primaryKey →
    ∃ v, row[i]? = some (some v) ∧
    (v = .null ∨ ∃ s, toSurrealForColumn v (table.column cid) = .ok s)

/-- A row of storable literals is split. -/
theorem splitRow_total {op : String} :
    ∀ {columns : List ColumnId} {position : Nat} {content : Object}
    {pk : List (Nat × Value)}, (∀ cid ∈ columns, cid ∈ table.columns.map Column.id) →
    (∀ (i : Nat) (cid : ColumnId), columns[i]? = some cid →
      ∃ v, row[position + i]? = some (some v) ∧
      (cid ∈ table.primaryKey ∨ v = .null ∨ ∃ s, toSurrealForColumn v (table.column cid) = .ok s)) →
    ∃ split, splitRow op table row columns position content pk = .ok split
  | [], _, _, _, _, _ => ⟨_, rfl⟩
  | cid :: columns, position, content, pk, hids, h => by
      obtain ⟨v, hv, hstore⟩ := h 0 cid rfl
      have hrest : ∀ content pk, ∃ split,
          splitRow op table row columns (position + 1) content pk = .ok split := by
        intro content pk
        refine splitRow_total (fun c hc => hids c (List.mem_cons_of_mem _ hc)) fun i c hi => ?_
        obtain ⟨w, hw, hcol⟩ := h (i + 1) c (by simpa using hi)
        exact ⟨w, by rw [← hw]; congr 1; omega, hcol⟩
      have hval : rowValue op row position = .ok v := by
        rw [rowValue]
        rw [Nat.add_zero] at hv
        rw [hv]
      have hid := (Table.column_mem (hids cid List.mem_cons_self)).2
      rw [splitRow, hval]
      show ∃ split, (if isPrimaryKey table (table.column cid) = true then _ else
        if v.isNull = true then _ else _ : Except Error (Object × List (Nat × Value))) = .ok split
      -- key values are only collected, nulls are left out, and the rest can be stored
      by_cases hk : isPrimaryKey table (table.column cid) = true
      · rw [if_pos hk]
        exact hrest _ _
      · rw [if_neg hk]
        have hnot : cid ∉ table.primaryKey := by
          rw [isPrimaryKey_iff, hid] at hk
          exact hk
        by_cases hnull : v.isNull = true
        · rw [if_pos hnull]
          exact hrest _ _
        · rw [if_neg hnull]
          rcases hstore with hkey | hnone | ⟨s, hs⟩
          · exact absurd hkey hnot
          · exact absurd (Value.isNull_iff.mpr hnone) hnull
          · rw [hs]
            exact hrest _ _

/-- **The record id built for a row** is the id of its key, or there is none. -/
theorem buildRow_recordId {op : String} (hl : ListsKey table columns)
    (hv : GivesKey table value columns row) (hs : Storable table columns row) :
    (buildRow op table columns row).map Prod.fst =
      recordId table (keyRecord (table.primaryKey.map value)) := by
  have hsplit : ∃ split, splitRow op table row columns 0 [] [] = .ok split := by
    refine splitRow_total hl.known fun i cid hi => ?_
    rw [Nat.zero_add]
    by_cases hk : cid ∈ table.primaryKey
    · exact ⟨_, hv i cid hi hk, .inl hk⟩
    · obtain ⟨v, hrow, hstore⟩ := hs i cid hi hk
      exact ⟨v, hrow, .inr hstore⟩
  obtain ⟨split, hsplit⟩ := hsplit
  rw [buildRow_eq hl hv, hsplit]
  show (recordId table _ >>= fun rid => Except.ok (rid, split.1)).map Prod.fst = _
  cases recordId table (keyRecord (table.primaryKey.map value)) <;> rfl

end KeyOfRow

/-! ## Reading a projection -/

section Read

variable {table : Table} {rid : RecordId} {o : Object}

theorem projectColumn_name (table : Table) (c : Column) :
    (projectColumn table c).name = c.name := by
  unfold projectColumn
  split <;> rfl

theorem projectFields_other {name : String} : ∀ {items : List ProjItem} {out : Object},
    (∀ item ∈ items, item.name ≠ name) →
    AssocMap.lookup name (projectFields rid o items out) = AssocMap.lookup name out
  | [], _, _ => rfl
  | item :: items, out, h => by
      rw [projectFields, projectFields_other fun i hi => h i (List.mem_cons_of_mem _ hi),
        AssocMap.lookup_insert_ne (h item (List.mem_cons_self ..)).symm]

/-- A projected item reads its value, however often its name occurs. -/
theorem projectFields_self {name : String} {v : SurValue} :
    ∀ {items : List ProjItem} {out : Object}, (∃ item ∈ items, item.name = name) →
    (∀ item ∈ items, item.name = name → item.value rid o = v) →
    AssocMap.lookup name (projectFields rid o items out) = some v
  | [], _, h, _ => by obtain ⟨item, hi, _⟩ := h; exact absurd hi List.not_mem_nil
  | item :: items, out, h, hv => by
      have hv' := fun i hi => hv i (List.mem_cons_of_mem _ hi)
      rw [projectFields]
      by_cases hlater : ∃ i ∈ items, i.name = name
      · exact projectFields_self hlater hv'
      · obtain ⟨i, hi, hname⟩ := h
        rcases List.mem_cons.mp hi with rfl | hi
        · have hno : ∀ j ∈ items, j.name ≠ name := fun j hj he => hlater ⟨j, hj, he⟩
          rw [projectFields_other hno, hname, AssocMap.lookup_insert_self,
            hv i (List.mem_cons_self ..) hname]
        · exact absurd ⟨i, hi, hname⟩ hlater

/-- A projection has no other names than its items'. -/
theorem projectRow_absent {name : String} {items : List ProjItem} (hne : items ≠ [])
    (h : ∀ item ∈ items, item.name ≠ name) : AssocMap.lookup name (projectRow items rid o) =
    none := by
  rw [projectRow, if_neg (by simpa using hne), projectFields_other h]
  rfl

/-- **A projected column reads its own value** and no other column's. -/
theorem projectRow_read {select : List Column} (hsel : ∀ c ∈ select, c ∈ table.columns) {c : Column}
    (hc : c ∈ select) : AssocMap.lookup c.name (projectRow (projectColumns table select) rid o) =
      some ((projectColumn table c).value rid o) := by
  have hne : (projectColumns table select).isEmpty = false := by
    cases select with
    | nil => exact absurd hc List.not_mem_nil
    | cons d ds => rfl
  rw [projectRow, hne, if_neg (by simp)]
  refine projectFields_self ⟨_, List.mem_map_of_mem hc, projectColumn_name table c⟩ ?_
  intro item hitem hname
  obtain ⟨d, hd, rfl⟩ := List.mem_map.mp hitem
  rw [projectColumn_name] at hname
  rw [Table.eq_of_name (hsel d hd) (hsel c hc) hname]

theorem projectColumn_key {c : Column} (h : isPrimaryKey table c = true) :
    (projectColumn table c).value rid o = refValue rid o (columnRef table c) := by
  rw [projectColumn, if_pos h]; rfl

theorem projectColumn_field {c : Column} (h : isPrimaryKey table c = false) :
    (projectColumn table c).value rid o = Object.field (recordRow rid o) c.name := by
  rw [projectColumn, if_neg (by simp [h])]; rfl

/-- A field other than `id` is read as it is stored. -/
theorem recordRow_field {name : String} (h : name ≠ "id") :
    Object.field (recordRow rid o) name = Object.field o name :=
  Object.field_insert_ne h _

theorem recordRow_id : Object.field (recordRow rid o) "id" = rid.value :=
  Object.field_insert_self ..

variable [Sdk]

/-- A scalar key is its value's encoding. -/
theorem scalarToKey_value {v : Value} {k : RecordIdKey} (h : scalarToKey v = .ok k) :
    toSurreal v = .ok k.value := by
  cases v with
  | u64 v =>
      rw [scalarToKey] at h
      split at h
      · rename_i hv
        injection h with h; subst h
        rw [toSurreal, if_pos hv]; rfl
      · exact absurd h (by simp)
  | i8 v | i16 v | i32 v | i64 v | u8 v | u16 v | u32 v | string v | uuid v =>
      injection h with h; subst h; rfl
  | _ => exact absurd h (by simp [scalarToKey])

theorem toSurrealList_getElem : ∀ {vs : List Value} {items : List SurValue},
    toSurrealList vs = .ok items → ∀ {i : Nat} {v : Value}, vs[i]? = some v →
    ∃ s, toSurreal v = .ok s ∧ items[i]? = some s
  | [], _, _, i, v, hi => by simp at hi
  | w :: vs, items, h, i, v, hi => by
      rw [toSurrealList] at h
      obtain ⟨s, hs, h⟩ := bind_eq_ok h
      obtain ⟨rest, hrest, h⟩ := bind_eq_ok h
      injection h with h; subst h
      cases i with
      | zero =>
          have hw : w = v := by simpa using hi
          subst hw
          exact ⟨s, hs, rfl⟩
      | succ i => exact toSurrealList_getElem hrest (by simpa using hi)

def Value.isRecord : Value → Bool
  | .record _ => true
  | _ => false

theorem recordIdKey_scalar {v : Value} (h : v.isRecord = false) (arity : Nat) :
    recordIdKey v arity = scalarToKey v := by
  cases v with
  | record items => exact absurd h (by simp [Value.isRecord])
  | _ => rfl

theorem recordIdKey_record {fields : List Value} {arity : Nat} (h : ¬ arity ≤ 1) :
    recordIdKey (.record fields) arity = (toSurrealList fields).map .array := by
  show (if arity ≤ 1 then _ else _) = _
  rw [if_neg h]
  cases toSurrealList fields <;> rfl

/-- The engine may wrap a single key in a record. -/
theorem recordId_wrapped {value : ColumnId → Value}
    (h : ∀ cid, table.primaryKey = [cid] → (value cid).isRecord = false) :
    recordId table (.record (table.primaryKey.map value)) =
      recordId table (keyRecord (table.primaryKey.map value)) := by
  rcases hpk : table.primaryKey with _ | ⟨cid, _ | ⟨d, cids⟩⟩
  · rfl
  · rw [List.map_cons, List.map_nil, keyRecord, recordId, recordId, recordIdKey_scalar (h cid hpk),
      hpk]
    rfl
  · rfl

/-- **A key column reads the value the key was built from.** -/
theorem key_read {value : ColumnId → Value} {c : Column} (hc : c.id ∈ table.primaryKey)
    (hscalar : (value c.id).isRecord = false)
    (h : recordId table (keyRecord (table.primaryKey.map value)) = .ok rid) :
    toSurreal (value c.id) = .ok (refValue rid o (columnRef table c)) := by
  have hkey : isPrimaryKey table c = true := isPrimaryKey_iff.mpr hc
  unfold recordId at h
  obtain ⟨k, hk, h⟩ := bind_eq_ok h
  injection h with h; subst h
  rw [columnRef, if_pos hkey]
  match hpk : table.primaryKey with
  | [] => rw [hpk] at hc; exact absurd hc List.not_mem_nil
  | [cid] =>
      rw [hpk] at hc hk
      have hcid : c.id = cid := by simpa using hc
      subst hcid
      -- a key of one column is the record id itself
      rw [if_pos (by simp)]
      have hs : scalarToKey (value c.id) = .ok k := by
        rw [← recordIdKey_scalar hscalar]; exact hk
      exact scalarToKey_value hs
  | d :: e :: cids =>
      -- a composite key is read at the column's position
      rw [if_neg (by simp)]
      have harity : ¬ table.primaryKey.length ≤ 1 := by rw [hpk]; simp
      have hrec : keyRecord (table.primaryKey.map value) =
          .record (table.primaryKey.map value) := by
        rw [hpk]; rfl
      rw [hrec, recordIdKey_record harity] at hk
      obtain ⟨items, hitems, rfl⟩ := map_eq_ok hk
      have hget : (table.primaryKey.map value)[keyPosition table c.id]? = some (value c.id) := by
        rw [List.getElem?_map, keyPosition_getElem hc]; rfl
      obtain ⟨s, hs, hitem⟩ := toSurrealList_getElem hitems hget
      rw [hs]
      show Except.ok s = .ok (items.getD (((d :: e :: cids).idxOf? c.id).getD 0) .none)
      rw [← hpk]
      show Except.ok s = .ok (items.getD (keyPosition table c.id) .none)
      rw [List.getD_eq_getElem?_getD, hitem]
      rfl

/-- A row decodes when each selected column does. -/
theorem rowToRecord_ok {row : Object} : ∀ {select : List Column} {fields : List Value},
    rowToRecord (.object row) select = .ok fields ↔
      List.Forall₂ (fun c v => fromSurrealForColumn (Object.field row c.name) c = .ok v) select
      fields
  | [], fields => by
      rw [rowToRecord]
      constructor
      · intro h; injection h with h; subst h; exact .nil
      · intro h; cases h; rfl
  | c :: select, fields => by
      rw [rowToRecord]
      constructor
      · intro h
        obtain ⟨v, hv, h⟩ := bind_eq_ok h
        obtain ⟨vs, hvs, h⟩ := bind_eq_ok h
        injection h with h; subst h
        exact .cons hv (rowToRecord_ok.mp hvs)
      · intro h
        cases h with
        | cons hv hvs =>
            show (fromSurrealForColumn (Object.field row c.name) c >>= _) = _
            rw [hv, rowToRecord_ok.mpr hvs]
            rfl

/-- Rows whose selected fields decode alike decode alike. -/
theorem rowToRecord_congr {row row' : Object} : ∀ {select : List Column},
    (∀ c ∈ select, fromSurrealForColumn (Object.field row c.name) c =
      fromSurrealForColumn (Object.field row' c.name) c) →
    rowToRecord (.object row) select = rowToRecord (.object row') select
  | [], _ => rfl
  | c :: select, h => by
      rw [rowToRecord, rowToRecord, h c (List.mem_cons_self ..),
        rowToRecord_congr fun d hd => h d (List.mem_cons_of_mem _ hd)]

end Read

end ToastySurreal
