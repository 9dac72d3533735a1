import ToastySurreal.Proof.Paging

/-!
# Scanning page by page

A scan by cursor asks for a page, reads the next cursor off the last row and goes on
after it until a page is not full. What several rows share of their keys is then what a
scan can lose; `scan_complete_iff` says exactly when.
-/

namespace ToastySurreal

open Results Prog Lists

section Keyset

variable [Surql] [Sdk] {conn : Connection} {table : Table} {columns : List Nat}
  {filter : Option Expr} {n : Nat}

/-- The sort key of a scan by cursor. -/
def scanSort (table : Table) : Option (ColumnRef × Direction) :=
  (sortColumn table).map fun _ => (sortRef table, .asc)

/-- A row of a scan, decoded. -/
def Decodes (table : Table) (columns : List Nat) (rec : RecordId × Object) (v : Value) : Prop :=
  ∃ fields, rowToRecord
    (selectRow (projectColumns table (columns.map fun i => table.column ⟨table.id, i⟩))
    (scanSort table) rec) (columns.map fun i => table.column ⟨table.id, i⟩) = .ok fields ∧
    v = .record fields

/-- A record the driver stored, of the columns' types, that a scan of these columns can
decode. -/
structure Readable (table : Table) (columns : List Nat) (rec : RecordId × Object) : Prop where
  stored : ∃ value, Stored table value rec.1 rec.2 ∧
    ∀ c, sortColumn table = some c → (value c.id).HasTy c.ty
  decodes : ∃ v, Decodes table columns rec v

omit [Surql] in
/-- **The sort key is the encoding of a typed value**, which the cursor carries over. -/
theorem Readable.key {rec : RecordId × Object} (h : Readable table columns rec) :
    SortTyped table rec := by
  intro c hc
  obtain ⟨value, hs, hty⟩ := h.stored
  obtain ⟨_, hmem, href⟩ := sortColumn_mem hc
  refine ⟨value c.id, hty c hc, ?_⟩
  rw [href]
  exact key_read hmem (hs.takes c.id hmem).isRecord hs.rid

omit [Surql] in
/-- Pages of records that decode are listed row for row. -/
theorem listPages_decodes (ps : List Records)
    (h : ∀ page ∈ ps, ∀ rec ∈ page, Readable table columns rec) :
    ∃ pages, listPages table (columns.map fun i => table.column ⟨table.id, i⟩) (scanSort table) ps =
      .ok pages ∧ List.Forall₂ (List.Forall₂ (Decodes table columns)) ps pages := by
  obtain ⟨pages, hpages⟩ := exists_forall₂ fun page hpage =>
    exists_forall₂ fun rec hrec => (h page hpage rec hrec).decodes
  exact ⟨pages, listPages_ok.mpr hpages, hpages⟩

/-! ## Reading to the end -/

/-- What a scan by cursor asks for next. -/
def pageScan (columns : List Nat) (filter : Option Expr) (n : Nat) (after : Option Value) : Scan :=
  ⟨columns, filter, some (.cursor n after)⟩

/-- Reissuing a scan with the cursor it returned, until it returns none: the pages, or the
error of a request. -/
inductive Paginated (conn : Connection) (table : Table) (columns : List Nat) (filter : Option Expr)
    (n : Nat) : Records → Option Value → Except Error (List (List Value)) → Prop where
  | fail {s s' : Records} {after : Option Value} {e : Error}
      (h : (execScan conn table (pageScan columns filter n after)).Runs recordStore.Handle s s'
        (.error e)) : Paginated conn table columns filter n s after (.error e)
  | last {s s' : Records} {after : Option Value} {records : List Value}
      (h : (execScan conn table (pageScan columns filter n after)).Runs recordStore.Handle s s'
        (.ok ⟨.stream records, none⟩)) : Paginated conn table columns filter n s after
        (.ok [records])
  | more {s s' : Records} {after : Option Value} {records : List Value} {cursor : Value}
      {out : Except Error (List (List Value))}
      (h : (execScan conn table (pageScan columns filter n after)).Runs recordStore.Handle s s'
        (.ok ⟨.stream records, some cursor⟩))
      (rest : Paginated conn table columns filter n s' (some cursor) out) :
      Paginated conn table columns filter n s after (out.map (records :: ·))

/-- A scan by cursor is followed as any request is. -/
theorem paginated_iff {s : Records} {after : Option Value}
    {out : Except Error (List (List Value))} : Paginated conn table columns filter n s after out ↔
      Followed (fun after => execScan conn table (pageScan columns filter n after)) s after
      out := by
  constructor
  · intro h
    induction h with
    | fail h => exact .fail h
    | last h => exact .last h
    | more h _ ih => exact .more h ih
  · intro h
    induction h with
    | fail h => exact .fail h
    | last h => exact .last h
    | more h _ ih => exact .more h ih

section Run

variable {predicate : Option (List Token)} {binds : Binds} {s : Records}

omit [Surql] in
/-- A rendered filter and its parameters. -/
theorem scanPredicate_steady (h : scanPredicate table filter = .ok (predicate, binds)) :
    binds.Numbered ∧ ∀ toks ∈ predicate.toList, Bound binds toks := by
  unfold scanPredicate at h
  split at h
  · injection h with h; injection h with h1 h2; subst h1 h2
    exact ⟨Binds.numbered_empty, fun toks htoks => absurd htoks List.not_mem_nil⟩
  · obtain ⟨⟨toks, b⟩, hrender, hok⟩ := bind_eq_ok h
    injection hok with hok; injection hok with h1 h2; subst h1 h2
    have hsteady : Steady .empty b toks := renderWithStorage_steady _ hrender
    refine ⟨hsteady.numbered Binds.numbered_empty, fun toks' htoks => ?_⟩
    rw [List.mem_singleton.mp htoks]
    exact hsteady.bound

omit [Surql] in
/-- A request of a scan is a keyset select. -/
theorem pageScan_eq (hpred : scanPredicate table filter = .ok (predicate, binds))
    (after : Option Value) :
    execScan conn table (pageScan columns filter n after) = runKeysetSelect conn (keysetPage table
      (columns.map fun i => table.column ⟨table.id, i⟩) predicate binds none n after) := by
  rw [execScan]
  simp only [pageScan, hpred, lift_ok_bind]
  rfl

/-! ## Completeness -/

/-- The pages hold every one of the records exactly once. -/
def Complete (table : Table) (columns : List Nat) (found : Records) (pages : List (List Value)) :
    Prop :=
  ∃ recs, recs.Perm found ∧ List.Forall₂ (Decodes table columns) recs pages.flatten

/-- No records that share their last key column's value lie on both sides of the end of a
page; without a key column there is one page only. -/
def BoundariesClear (table : Table) (n : Nat) (found : Records) : Prop :=
  match sortColumn table with
  | none => found.length ≤ n
  | some _ => (keyReading (sortRef table)).NoTieAcross n found

/-- The pages of a scan, whatever the keys. -/
theorem scan_pages [LawfulSdk] (hn : 0 < n)
    (hpred : scanPredicate table filter = .ok (predicate, binds))
    (hs : ∀ rec ∈ s, rec.1.table = table.name → Readable table columns rec) :
    ∃ pages, (∀ out, Paginated conn table columns filter n s none out ↔ out = .ok pages) ∧
      (∃ recs, recs.Subperm (matching table predicate binds s) ∧
        List.Forall₂ (Decodes table columns) recs pages.flatten) ∧
      (pages.flatten.length = (matching table predicate binds s).length ↔
        BoundariesClear table n (matching table predicate binds s)) := by
  have hread : ∀ rec ∈ matching table predicate binds s, Readable table columns rec := by
    intro rec hrec
    obtain ⟨hmem, hkeep⟩ := List.mem_filter.mp hrec
    rw [Bool.and_eq_true] at hkeep
    exact hs rec hmem (by simpa using hkeep.1)
  simp only [paginated_iff, pageScan_eq hpred]
  unfold BoundariesClear
  cases hc : sortColumn table with
  | none =>
      have hsort : scanSort table = none := by rw [scanSort, hc]; rfl
      obtain ⟨pages, hlist, hall⟩ := listPages_decodes [(matching table predicate binds s).take n]
        fun page hpage rec hrec =>
          hread rec (List.mem_of_mem_take (List.mem_singleton.mp hpage ▸ hrec))
      rw [hsort] at hlist
      have hflat := List.rel_flatten hall
      rw [List.flatten_cons, List.flatten_nil, List.append_nil] at hflat
      refine ⟨pages, fun out => ?_, ⟨_, (List.take_sublist n _).subperm, hflat⟩, ?_⟩
      · rw [followed_single hc, hlist]
      · have hlen := hflat.length_eq
        rw [List.length_take] at hlen
        dsimp only
        omega
  | some c =>
      have hsort : scanSort table = some (sortRef table, .asc) := by rw [scanSort, hc]; rfl
      obtain ⟨hnum, hbound⟩ := scanPredicate_steady hpred
      obtain ⟨ps, hps⟩ := Keyset.Reading.exists_pages (R := keyReading (sortRef table)) hn
        (matching table predicate binds s)
      have hsub : ∀ page ∈ ps, ∀ rec ∈ page, rec ∈ matching table predicate binds s :=
        fun page hpage rec hrec => (Keyset.Reading.pages_subperm hps).subset
          (List.mem_flatten.mpr ⟨page, hpage, hrec⟩)
      obtain ⟨pages, hlist, hall⟩ := listPages_decodes ps
        fun page hpage rec hrec => hread rec (hsub page hpage rec hrec)
      rw [hsort] at hlist
      have hflat : List.Forall₂ (Decodes table columns) ps.flatten pages.flatten :=
        List.rel_flatten hall
      refine ⟨pages, fun out => ?_, ⟨_, Keyset.Reading.pages_subperm hps, hflat⟩, ?_⟩
      · have hstart : StartsAt (keyReading (sortRef table)) (matching table predicate binds s) none
            (matching table predicate binds s) := rfl
        -- no order is asked for: ascending
        have hresume : ResumeFollows (sortRef table) ((none : Option Direction).getD .asc) :=
          resumeFollows_asc _
        rw [followed_pages hn hc hnum hbound hresume rfl hps hstart
          (fun rec hrec => (hread rec hrec).key) out]
        exact iff_of_eq (congrArg (out = ·) hlist)
      · rw [← hflat.length_eq]
        exact Keyset.Reading.pages_complete_iff hps

/-- **When a scan is complete.** Reissuing a scan with its cursors ends, with one list of
pages and no error; no record is read twice; and every record that satisfies the filter
is read exactly when no ties on the last key column reach over the end of a page. -/
theorem scan_complete_iff [LawfulSdk] (hn : 0 < n)
    (hpred : scanPredicate table filter = .ok (predicate, binds))
    (hs : ∀ rec ∈ s, rec.1.table = table.name → Readable table columns rec) :
    ∃ pages, (∀ out, Paginated conn table columns filter n s none out ↔ out = .ok pages) ∧
      (∃ recs, recs.Subperm (matching table predicate binds s) ∧
        List.Forall₂ (Decodes table columns) recs pages.flatten) ∧
      (Complete table columns (matching table predicate binds s) pages ↔
        BoundariesClear table n (matching table predicate binds s)) := by
  obtain ⟨pages, hiff, ⟨recs, hsub, hrecs⟩, hlen⟩ := scan_pages hn hpred hs
  refine ⟨pages, hiff, ⟨recs, hsub, hrecs⟩, ?_⟩
  rw [← hlen]
  constructor
  · intro h
    obtain ⟨recs', hperm, hrecs'⟩ := h
    rw [← hrecs'.length_eq, hperm.length_eq]
  · intro h
    refine ⟨recs, hsub.perm_of_length_le ?_, hrecs⟩
    rw [hrecs.length_eq, h]

end Run

end Keyset

/-- A table with a key of two columns. -/
def entries : Table where
  id := 0
  name := "entries"
  columns := [⟨⟨0, 0⟩, "list", .i64, .integer 8⟩, ⟨⟨0, 1⟩, "position", .i64, .integer 8⟩]
  primaryKey := [⟨0, 0⟩, ⟨0, 1⟩]
  indices := []

/-- The first entry of a list. -/
def entry (list : Int64) : RecordId × Object :=
  (⟨"entries", .array [.number (.int list), .number (.int 1)]⟩, [])

theorem entry_readable (list : Int64) : @Readable plain entries [0, 1] (entry list) := by
  let := plain
  refine ⟨⟨fun cid => if cid.index = 0 then .i64 list else .i64 1,
    ⟨rfl, fun cid hcid => ?_, fun _ _ _ => rfl⟩,
    fun c hc => ?_⟩, .record [.i64 list, .i64 1], [.i64 list, .i64 1], rfl, rfl⟩
  · rcases List.mem_cons.mp hcid with rfl | hcid
    · exact .i64 list
    · rw [List.mem_singleton.mp hcid]; exact .i64 1
  · injection hc with hc; subst hc
    exact .i64 1

/-- Two lists that both have an entry at position 1: read one at a time, the second is lost. -/
theorem tied_row_lost : let := plain
    let := plainSurql
    ¬ ∀ (s : Records) (n : Nat) (pages : List (List Value)), 0 < n →
      (∀ rec ∈ s, rec.1.table = entries.name → Readable entries [0, 1] rec) →
      Paginated .new entries [0, 1] none n s none (.ok pages) →
      Complete entries [0, 1] (matching entries none .empty s) pages := by
  intro _ _ h
  let := plain_lawful
  have hread : ∀ rec ∈ [entry 1, entry 2], rec.1.table = entries.name →
      Readable entries [0, 1] rec := by
    intro rec hrec _
    rcases List.mem_cons.mp hrec with rfl | hrec
    · exact entry_readable 1
    · rw [List.mem_singleton.mp hrec]; exact entry_readable 2
  have hscan := @scan_pages _ _ .new entries [0, 1] none 1 none .empty _ _ Nat.one_pos rfl hread
  obtain ⟨pages, hiff, _, hlen⟩ := hscan
  obtain ⟨recs, hperm, hrecs⟩ := h _ 1 pages (by omega) hread ((hiff _).mpr rfl)
  have hclear := hlen.mp (by rw [← hrecs.length_eq, hperm.length_eq])
  exact hclear (entry 1) (by decide) 1 (by decide)

/-- A todo. -/
def todo (id : Int64) : RecordId × Object := (⟨"todos", .number id⟩, [("done", .bool false)])

theorem todo_readable (id : Int64) : @Readable plain todos [0, 1] (todo id) := by
  let := plain
  refine ⟨⟨fun _ => .i64 id, ⟨rfl, fun cid hcid => ?_, fun c hc hk => ?_⟩, fun c hc => ?_⟩,
    .record [.i64 id, .bool false], [.i64 id, .bool false], rfl, rfl⟩
  · rw [List.mem_singleton.mp hcid]; exact .i64 id
  · rcases List.mem_cons.mp hc with rfl | hc
    · rfl
    · rw [List.mem_singleton.mp hc] at hk; exact absurd hk (by decide)
  · injection hc with hc; subst hc
    exact .i64 id

/-- Three todos, read two at a time. -/
theorem todos_all_read : let := plain
    let := plainSurql
    ∃ pages, (∀ out, Paginated .new todos [0, 1] none 2 [todo 3, todo 1, todo 2] none out ↔
      out = .ok pages) ∧
      Complete todos [0, 1] (matching todos none .empty [todo 3, todo 1, todo 2]) pages := by
  intro _ _
  let := plain_lawful
  have hread : ∀ rec ∈ [todo 3, todo 1, todo 2], rec.1.table = todos.name →
      Readable todos [0, 1] rec := by
    intro rec hrec _
    rcases List.mem_cons.mp hrec with rfl | hrec
    · exact todo_readable 3
    · rcases List.mem_cons.mp hrec with rfl | hrec
      · exact todo_readable 1
      · rw [List.mem_singleton.mp hrec]; exact todo_readable 2
  have hscan := @scan_complete_iff _ _ .new todos
    [0, 1] none 2 none .empty _ _ Nat.two_pos rfl hread
  obtain ⟨pages, hiff, _, hcomplete⟩ := hscan
  refine ⟨pages, hiff, hcomplete.mpr ?_⟩
  exact Keyset.Reading.noTieAcross_of_injective (by decide) (by decide)

end ToastySurreal
