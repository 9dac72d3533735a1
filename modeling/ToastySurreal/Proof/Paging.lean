import ToastySurreal.Lib.Keyset
import ToastySurreal.Proof.Grouping
import ToastySurreal.Proof.Parameters
import ToastySurreal.Proof.WriteRead

/-!
# Following a cursor

Scans and key queries ask for a page in one way: the records that match, sorted by the
last key column in a direction, from the cursor on. Each request is one step of reading
by that column, as `Keyset` has it: the filter keeps its meaning when the cursor is bound
after it, and the cursor is encoded to the key it was decoded from. `followed_pages` says
what following the cursors comes to, whatever the rows hold.
-/

namespace ToastySurreal

open Results Prog Lists
open Precedence (Tok)

/-! ## One statement -/

/-- A keyset select is one statement, and fails where that is refused. -/
theorem refusable_keyset [Sdk] (conn : Connection) (input : KeysetSelect) :
    Database.Refusable (runKeysetSelect conn input) :=
  .lift_bind fun _ _ => (Database.refusable_call _).bind fun _ =>
    (Ended.lift _).bind fun _ => (Ended.lift _).bind fun _ => ⟨.ok _, rfl⟩

variable [Surql]

/-! ## Reading records by a column reference -/

/-- Reading records by what a column reference reads. -/
def keyReading (r : ColumnRef) : Keyset.Reading (RecordId × Object) SurValue where
  le := Surql.le
  total := Surql.le_total
  trans := Surql.le_trans
  key rec := refValue rec.1 rec.2 r
  sort := Surql.sortBy fun rec => refValue rec.1 rec.2 r
  perm := Surql.sortBy_perm _
  sorted := Surql.sortBy_sorted _

/-- The same in a direction. -/
def directedReading (r : ColumnRef) : Direction → Keyset.Reading (RecordId × Object) SurValue
  | .asc => keyReading r
  | .desc => (keyReading r).reverse

/-- The records of a table that satisfy a predicate. -/
def matching (table : Table) (predicate : Option (List Token)) (binds : Binds) (s : Records) :
    Records :=
  s.filter fun r => r.1.table == table.name &&
    predicate.toList.all fun toks => Surql.holds (toks.map (Tok.map (resolve binds))) r.1 r.2

/-- The operator that goes on in a direction. -/
def resumeOp : Direction → Op
  | .asc => .gt
  | .desc => .lt

/-- The operator follows the direction's order on a column reference. -/
def ResumeFollows (r : ColumnRef) (dir : Direction) : Prop :=
  ∀ v rid o, Surql.holds [.atom (.ref r []), .op (resumeOp dir), .atom (.value v)] rid o =
    !(directedReading r dir).le (refValue rid o r) v

theorem resumeFollows_asc (r : ColumnRef) : ResumeFollows r .asc := Surql.holds_gt r

theorem select_exec {projection : List ProjItem} {sort : Option (ColumnRef × Direction)}
    {name : String} {clauses : List (List Token)} {limit : Option (Nat × Option Nat)}
    {binds : List (String × SurValue)} {s s' : Records} {r : Reply} :
    Records.exec s ⟨.select projection sort name clauses limit, binds⟩ r s' ↔
      s' = s ∧ r = .ok (.array ((selectRecords s ⟨.select projection sort name clauses limit, binds⟩
        sort name clauses limit).map (selectRow projection sort))) := Iff.rfl

variable {table : Table} {predicate : Option (List Token)} {binds : Binds} {s : Records} {n : Nat}
  {dir : Direction}

/-- A sorted select, of the records it finds. -/
theorem selectRecords_sorted {q : Query} {r : ColumnRef} {clauses : List (List Token)}
    {found : Records}
    (h : (s.filter fun rec => rec.1.table == table.name && clausesHold q clauses rec.1 rec.2) =
      found) :
    selectRecords s q (some (r, dir)) table.name clauses (some (n, none)) =
      ((directedReading r dir).sort found).take n := by
  subst h
  cases dir <;> rfl

/-- The first page of a sorted select. -/
theorem selectRecords_first {sql : Sql} {r : ColumnRef} :
    selectRecords s ⟨sql, binds.values⟩ (some (r, dir)) table.name predicate.toList
    (some (n, none)) =
      ((directedReading r dir).sort (matching table predicate binds s)).take n :=
  selectRecords_sorted rfl

/-- **A resumed page** reads what comes after the cursor: the predicate means what it
meant, and the resume clause compares with the cursor's value. -/
theorem selectRecords_resumed {sql : Sql} {r : ColumnRef} {v : SurValue}
    (hresume : ResumeFollows r dir) (hnum : binds.Numbered)
    (hbound : ∀ toks ∈ predicate.toList, Bound binds toks) :
    selectRecords s ⟨sql, (binds.push v).2.values⟩ (some (r, dir)) table.name (predicate.toList ++
        [[.atom (.ref r []), .op (resumeOp dir), .atom (.param (binds.push v).1)]])
        (some (n, none)) =
      ((directedReading r dir).sort
        ((directedReading r dir).after v (matching table predicate binds s))).take n := by
  have hprefix : binds.values <+: (binds.push v).2.values := (Grows.push binds v).grows
  have hkeep : ∀ rec : RecordId × Object,
      clausesHold ⟨sql, (binds.push v).2.values⟩ (predicate.toList ++
      [[.atom (.ref r []), .op (resumeOp dir), .atom (.param (binds.push v).1)]]) rec.1 rec.2 =
        ((predicate.toList.all fun toks =>
          Surql.holds (toks.map (Tok.map (resolve binds))) rec.1 rec.2) &&
            !(directedReading r dir).le (refValue rec.1 rec.2 r) v) := by
    intro rec
    have hclause : ([.atom (.ref r []), .op (resumeOp dir), .atom (.param (binds.push v).1)] :
        List Token).map (Tok.map (resolve (binds.push v).2)) =
          [.atom (.ref r []), .op (resumeOp dir), .atom (.value v)] := by
      simp only [List.map_cons, List.map_nil, Tok.map,
        resolve_push (hnum.push v) (List.prefix_refl _)]
      rfl
    unfold clausesHold
    rw [List.all_append, List.all_cons, List.all_nil, Bool.and_true]
    congr 1
    · rw [Bool.eq_iff_iff, List.all_eq_true, List.all_eq_true]
      refine forall₂_congr fun toks htoks => ?_
      have hsame := (hbound toks htoks).resolve hprefix
      exact iff_of_eq (congrArg (fun ts => Surql.holds ts rec.1 rec.2 = true) hsame)
    · exact (congrArg (fun ts => Surql.holds ts rec.1 rec.2) hclause).trans (hresume v _ _)
  have hkey : (directedReading r dir).key = fun rec => refValue rec.1 rec.2 r := by
    cases dir <;> rfl
  refine selectRecords_sorted ?_
  rw [Keyset.Reading.after, matching, List.filter_filter, hkey]
  refine List.filter_congr fun rec _ => ?_
  rw [hkeep rec, ← Bool.and_assoc, Bool.and_comm]

/-! ## A keyset select -/

variable [Sdk] {conn : Connection}

/-- **A keyset select** on the records decodes the rows it selects, and changes nothing. -/
theorem runKeysetSelect_runs {input : KeysetSelect} {q : Query} {rows : List SurValue}
    {s s' : Records} {out : Except Error ExecResponse} (hq : keysetQuery input = .ok q)
    (hexec : ∀ r s', Records.exec s q r s' ↔ s' = s ∧ r = .ok (.array rows)) :
    (runKeysetSelect conn input).Runs recordStore.Handle s s' out ↔ s' = s ∧
      out = (do
        let next ← keysetCursor rows input.limit input.sortColumn
        let records ← rowsToRecords input.select rows
        .ok ⟨.stream records, next⟩) := by
  -- after the query nothing is asked any more
  have hpure : ∀ {x : Except Error (Option Value)} {y : Except Error (List Value)},
      (do
        let next ← Prog.lift x
        let records ← Prog.lift y
        .done ⟨.stream records, next⟩ : Action ExecResponse).Runs recordStore.Handle s s' out ↔
      s' = s ∧ out = (do
        let next ← x
        let records ← y
        .ok ⟨.stream records, next⟩) := by
    intro x y
    cases x with
    | error e => exact Iff.rfl
    | ok next => cases y <;> exact Iff.rfl
  rw [runKeysetSelect, hq]
  refine Iff.trans Database.runs_runQuery_bind ?_
  rw [← hpure]
  constructor
  · intro h
    rcases h with ⟨err, hfail, _⟩ | ⟨v, s₁, hrun, hrest⟩
    · exact absurd ((hexec _ _).mp hfail).2 (by simp)
    · obtain ⟨rfl, hv⟩ := (hexec _ _).mp hrun
      injection hv with hv; subst hv
      exact hrest
  · intro h
    exact .inr ⟨_, s, (hexec _ _).mpr ⟨rfl, rfl⟩, h⟩

omit [Surql] [Sdk] in
theorem sortColumn_mem {c : Column} (h : sortColumn table = some c) :
    c ∈ table.columns ∧ c.id ∈ table.primaryKey ∧ sortRef table = columnRef table c := by
  have href : sortRef table = columnRef table c := by rw [sortRef, h]
  unfold sortColumn at h
  obtain ⟨cid, hcid, rfl⟩ := Option.map_eq_some_iff.mp h
  have hmem : cid ∈ table.primaryKey := List.mem_of_getLast? hcid
  obtain ⟨hc, hid⟩ := Table.column_mem (table.key_ids cid hmem)
  exact ⟨hc, hid.symm ▸ hmem, href⟩

/-! ## Cursors -/

omit [Surql] in
theorem keysetCursor_short {rows : List SurValue} {after : Option Value} {c : Option Column}
    (h : rows.length < n) : keysetCursor rows (some (.cursor n after)) c = .ok none := by
  unfold keysetCursor
  simp only [h, if_true]

omit [Surql] in
theorem keysetCursor_unsorted (rows : List SurValue) (after : Option Value) :
    keysetCursor rows (some (.cursor n after)) none = .ok none := by
  unfold keysetCursor
  dsimp only
  split
  · rfl
  · cases rows.getLast? with
    | none => rfl
    | some row => cases row <;> rfl

omit [Surql] in
theorem keysetCursor_full {rows : List SurValue} {after : Option Value} {c : Column} {o : Object}
    {value : SurValue} {v : Value} (h : n ≤ rows.length) (hlast : rows.getLast? = some (.object o))
    (hvalue : AssocMap.lookup sortAlias o = some value) (hv : fromSurreal value c.ty = .ok v) :
    keysetCursor rows (some (.cursor n after)) (some c) = .ok (some v) := by
  unfold keysetCursor
  simp only [Nat.not_lt.mpr h, if_false, hlast, hvalue, hv]
  rfl

/-- The sort key of a record is the encoding of a value of its column's type. -/
def SortTyped (table : Table) (rec : RecordId × Object) : Prop :=
  ∀ c, sortColumn table = some c → ∃ v : Value, v.HasTy c.ty ∧
    toSurreal v = .ok (refValue rec.1 rec.2 (sortRef table))

/-- The rows of a page. -/
def pageRows (table : Table) (select : List Column) (sort : Option (ColumnRef × Direction))
    (page : Records) : List SurValue := page.map (selectRow (projectColumns table select) sort)

omit [Surql] in
/-- The next cursor of a full page is its last key. -/
theorem keysetCursor_page [LawfulSdk] {c : Column} {page : Records} (hc : sortColumn table = some c)
    (hpage : ∀ rec ∈ page, SortTyped table rec) (hlen : page.length = n) (hn : 0 < n) :
    ∃ x v, page.getLast? = some x ∧ toSurreal v = .ok (refValue x.1 x.2 (sortRef table)) ∧
      ∀ select dir after, keysetCursor (pageRows table select (some (sortRef table, dir)) page)
        (some (.cursor n after)) (some c) = .ok (some v) := by
  have hne : page ≠ [] := by
    rintro rfl
    rw [List.length_nil] at hlen
    omega
  obtain ⟨x, hx⟩ := Option.ne_none_iff_exists'.mp fun hnone =>
    hne (List.getLast?_eq_none_iff.mp hnone)
  obtain ⟨v, hty, hv⟩ := hpage x (List.mem_of_getLast? hx) c hc
  refine ⟨x, v, hx, hv, fun select dir after => ?_⟩
  exact keysetCursor_full (by rw [pageRows, List.length_map, hlen])
    (by rw [pageRows, List.getLast?_map, hx]; rfl) (AssocMap.lookup_insert_self ..)
    (fromSurreal_toSurreal hty hv)

/-! ## One request -/

/-- The select of a page of a scan or a key query. -/
def keysetPage (table : Table) (select : List Column) (predicate : Option (List Token))
    (binds : Binds) (order : Option Direction) (n : Nat) (after : Option Value) : KeysetSelect where
  tableName := table.name
  projection := projectColumns table select
  predicate := predicate
  sortRef := sortRef table
  sortColumn := sortColumn table
  order := order
  limit := some (.cursor n after)
  binds := binds
  select := select

variable {select : List Column} {order : Option Direction} {c : Column}

omit [Surql] in
/-- The statement of a first page. -/
theorem keysetQuery_first (hc : sortColumn table = some c) :
    keysetQuery (keysetPage table select predicate binds order n none) =
      .ok ⟨.select (projectColumns table select) (some (sortRef table, order.getD .asc)) table.name
        (predicate.toList ++ []) (some (n, none)), binds.values⟩ := by
  rw [keysetPage, hc]
  cases order <;> rfl

omit [Surql] in
/-- The statement of a later page. -/
theorem keysetQuery_resumed {cursor : Value} {v : SurValue} (hc : sortColumn table = some c)
    (hv : toSurreal cursor = .ok v) :
    keysetQuery (keysetPage table select predicate binds order n (some cursor)) =
      .ok ⟨.select (projectColumns table select) (some (sortRef table, order.getD .asc)) table.name
        (predicate.toList ++ [[.atom (.ref (sortRef table) []), .op (resumeOp (order.getD .asc)),
          .atom (.param (binds.push v).1)]]) (some (n, none)), (binds.push v).2.values⟩ := by
  rw [keysetPage, hc, keysetQuery, resumePart]
  dsimp only
  rw [hv]
  cases order with
  | none => rfl
  | some dir => cases dir <;> rfl

/-- The records a request starts from: all that match, or what comes after its cursor. -/
def StartsAt (R : Keyset.Reading (RecordId × Object) SurValue) (found : Records) :
    Option Value → Records → Prop
  | none, rest => rest = found
  | some cursor, rest => ∃ v, toSurreal cursor = .ok v ∧ rest = R.after v found

omit [Surql] in
/-- Going on after a page's last key starts from what comes after it. -/
theorem StartsAt.next {R : Keyset.Reading (RecordId × Object) SurValue} {found rest : Records}
    {after : Option Value} {x : RecordId × Object} {v : Value} (hrest : StartsAt R found after rest)
    (hx : x ∈ rest) (hv : toSurreal v = .ok (R.key x)) :
    StartsAt R found (some v) (R.after (R.key x) rest) := by
  refine ⟨_, hv, ?_⟩
  cases after with
  | none =>
      obtain rfl : rest = found := hrest
      rfl
  | some cursor =>
      obtain ⟨w, _, rfl⟩ := hrest
      have hlater : R.le (R.key x) w = false := by
        have hmem := (List.mem_filter.mp hx).2
        simpa using hmem
      exact Keyset.Reading.after_after (Keyset.Reading.le_of_not hlater) _

/-- **One request** selects the first page of the records it starts from. -/
theorem keysetPage_runs {after : Option Value} {rest s' : Records} {out : Except Error ExecResponse}
    (hc : sortColumn table = some c) (hnum : binds.Numbered)
    (hbound : ∀ toks ∈ predicate.toList, Bound binds toks)
    (hresume : ResumeFollows (sortRef table) (order.getD .asc))
    (hrest : StartsAt (directedReading (sortRef table) (order.getD .asc))
      (matching table predicate binds s) after rest) :
    (runKeysetSelect conn (keysetPage table select predicate binds order n after)).Runs
      recordStore.Handle s s' out ↔ s' = s ∧ out = (do
        let rows := pageRows table select (some (sortRef table, order.getD .asc))
          (((directedReading (sortRef table) (order.getD .asc)).sort rest).take n)
        let next ← keysetCursor rows (some (.cursor n after)) (some c)
        let records ← rowsToRecords select rows
        .ok ⟨.stream records, next⟩) := by
  cases after with
  | none =>
      obtain rfl : rest = matching table predicate binds s := hrest
      refine (runKeysetSelect_runs (keysetQuery_first hc) fun r s' => select_exec).trans ?_
      rw [List.append_nil, selectRecords_first, ← hc]
      rfl
  | some cursor =>
      obtain ⟨v, hv, rfl⟩ := hrest
      refine (runKeysetSelect_runs (keysetQuery_resumed hc hv) fun r s' => select_exec).trans ?_
      rw [selectRecords_resumed hresume hnum hbound, ← hc]
      rfl

/-! ## Following the cursors -/

/-- Reissuing a request with the cursor it returned, until it returns none: the pages, or
the error of a request. -/
inductive Followed (request : Option Value → Action ExecResponse) :
    Records → Option Value → Except Error (List (List Value)) → Prop where
  | fail {s s' : Records} {after : Option Value} {e : Error}
      (h : (request after).Runs recordStore.Handle s s' (.error e)) : Followed request s after
      (.error e)
  | last {s s' : Records} {after : Option Value} {records : List Value}
      (h : (request after).Runs recordStore.Handle s s' (.ok ⟨.stream records, none⟩)) :
      Followed request s after (.ok [records])
  | more {s s' : Records} {after : Option Value} {records : List Value} {cursor : Value}
      {out : Except Error (List (List Value))}
      (h : (request after).Runs recordStore.Handle s s' (.ok ⟨.stream records, some cursor⟩))
      (rest : Followed request s' (some cursor) out) :
      Followed request s after (out.map (records :: ·))

section Followed

omit [Sdk]

variable {request : Option Value → Action ExecResponse} {after : Option Value}
  {out : Except Error (List (List Value))}

/-- A request that fails is the end. -/
theorem followed_error {e : Error} (h : ∀ s' out, (request after).Runs recordStore.Handle s s' out ↔
    s' = s ∧ out = .error e) : Followed request s after out ↔ out = .error e := by
  constructor
  · intro hout
    cases hout with
    | fail hrun => exact congrArg Except.error (Except.error.inj ((h _ _).mp hrun).2)
    | last hrun => exact absurd ((h _ _).mp hrun).2 (by simp)
    | more hrun _ => exact absurd ((h _ _).mp hrun).2 (by simp)
  · rintro rfl
    exact .fail ((h _ _).mpr ⟨rfl, rfl⟩)

/-- A request that returns no cursor is the last one. -/
theorem followed_last {result : Except Error (List Value)}
    (h : ∀ s' out, (request after).Runs recordStore.Handle s s' out ↔
      s' = s ∧ out = result.map fun records => ⟨.stream records, none⟩) :
    Followed request s after out ↔ out = result.map ([·]) := by
  cases result with
  | error e => exact followed_error h
  | ok records =>
      constructor
      · intro hout
        cases hout with
        | fail hrun => exact absurd ((h _ _).mp hrun).2 (by simp [Except.map])
        | last hrun =>
            obtain ⟨_, hresp⟩ := (h _ _).mp hrun
            injection hresp with hresp; injection hresp with hrecords _
            injection hrecords with hrecords
            rw [hrecords]
            rfl
        | more hrun _ => exact absurd ((h _ _).mp hrun).2 (by simp [Except.map])
      · rintro rfl
        exact .last ((h _ _).mpr ⟨rfl, rfl⟩)

/-- A request that returns a cursor goes on with it. -/
theorem followed_more {result : Except Error (List Value)} {cursor : Value}
    {rest : Except Error (List (List Value))}
    (h : ∀ s' out, (request after).Runs recordStore.Handle s s' out ↔
      s' = s ∧ out = result.map fun records => ⟨.stream records, some cursor⟩)
    (hrest : ∀ out, Followed request s (some cursor) out ↔ out = rest) :
    Followed request s after out ↔ out = result.bind fun records => rest.map (records :: ·) := by
  cases result with
  | error e => exact followed_error h
  | ok records =>
      constructor
      · intro hout
        cases hout with
        | fail hrun => exact absurd ((h _ _).mp hrun).2 (by simp [Except.map])
        | last hrun => exact absurd ((h _ _).mp hrun).2 (by simp [Except.map])
        | more hrun hfollow =>
            obtain ⟨rfl, hresp⟩ := (h _ _).mp hrun
            injection hresp with hresp; injection hresp with hrecords hnext
            injection hrecords with hrecords; injection hnext with hnext; subst hrecords hnext
            rw [(hrest _).mp hfollow]
            rfl
      · rintro rfl
        exact .more ((h _ _).mpr ⟨rfl, rfl⟩) ((hrest _).mpr rfl)

end Followed

/-- Pages of records decoded, up to the first row that does not decode. -/
def listPages (table : Table) (select : List Column) (sort : Option (ColumnRef × Direction)) :
    List Records → Except Error (List (List Value))
  | [] => .ok []
  | page :: pages => (rowsToRecords select (pageRows table select sort page)).bind fun records =>
      (listPages table select sort pages).map (records :: ·)

/-- What a record's row decodes to. -/
def RowDecodes (table : Table) (select : List Column) (sort : Option (ColumnRef × Direction))
    (rec : RecordId × Object) (v : Value) : Prop :=
  ∃ fields, rowToRecord (selectRow (projectColumns table select) sort rec) select = .ok fields ∧
    v = .record fields

omit [Surql] in
theorem pageRows_decode {sort : Option (ColumnRef × Direction)} :
    ∀ {page : Records} {records : List Value},
    rowsToRecords select (pageRows table select sort page) = .ok records ↔
      List.Forall₂ (RowDecodes table select sort) page records
  | [], records => by
      rw [List.forall₂_nil_left_iff]
      exact ⟨fun h => (Except.ok.inj h).symm, fun h => congrArg Except.ok h.symm⟩
  | rec :: page, records => by
      rw [pageRows, List.map_cons, rowsToRecords]
      constructor
      · intro h
        obtain ⟨fields, hfields, h⟩ := bind_eq_ok h
        obtain ⟨rest, hrest, h⟩ := bind_eq_ok h
        injection h with h; subst h
        exact .cons ⟨fields, hfields, rfl⟩ (pageRows_decode.mp hrest)
      · intro h
        cases h with
        | cons hrec hpage =>
            obtain ⟨fields, hfields, rfl⟩ := hrec
            have hrest := pageRows_decode.mpr hpage
            rw [pageRows] at hrest
            rw [hfields, hrest]
            rfl

omit [Surql] in
/-- **Pages are listed** exactly when every row of theirs decodes, and then row for row. -/
theorem listPages_ok {sort : Option (ColumnRef × Direction)} : ∀ {ps : List Records}
    {pages : List (List Value)}, listPages table select sort ps = .ok pages ↔
      List.Forall₂ (List.Forall₂ (RowDecodes table select sort)) ps pages
  | [], pages => by
      rw [List.forall₂_nil_left_iff, listPages]
      exact ⟨fun h => (Except.ok.inj h).symm, fun h => congrArg Except.ok h.symm⟩
  | page :: ps, pages => by
      rw [listPages]
      constructor
      · intro h
        obtain ⟨records, hrecords, h⟩ := bind_eq_ok h
        obtain ⟨rest, hrest, rfl⟩ := map_eq_ok h
        exact .cons (pageRows_decode.mp hrecords) (listPages_ok.mp hrest)
      · intro h
        cases h with
        | cons hpage hrest =>
            rw [pageRows_decode.mpr hpage, listPages_ok.mpr hrest]
            rfl

omit [Surql] in
theorem listPages_last {sort : Option (ColumnRef × Direction)} {page : Records} :
    listPages table select sort [page] =
      (rowsToRecords select (pageRows table select sort page)).map ([·]) := by
  rw [listPages, listPages]
  cases rowsToRecords select _ <;> rfl

/-- **Following the cursors reads page after page**, as the records are read by their sort
key, and decodes each page. -/
theorem followed_pages [LawfulSdk] {R : Keyset.Reading (RecordId × Object) SurValue}
    {rest : Records} {ps : List Records} (hn : 0 < n) (hc : sortColumn table = some c)
    (hnum : binds.Numbered) (hbound : ∀ toks ∈ predicate.toList, Bound binds toks)
    (hresume : ResumeFollows (sortRef table) (order.getD .asc))
    (hR : directedReading (sortRef table) (order.getD .asc) = R) (h : R.Pages n rest ps) :
    ∀ {after : Option Value}, StartsAt R (matching table predicate binds s) after rest →
    (∀ rec ∈ rest, SortTyped table rec) →
    ∀ out, Followed (fun after => runKeysetSelect conn
        (keysetPage table select predicate binds order n after)) s after out ↔
      out = listPages table select (some (sortRef table, order.getD .asc)) ps := by
  have hkey : ∀ rec, R.key rec = refValue rec.1 rec.2 (sortRef table) := by
    intro rec
    rw [← hR]
    cases order.getD .asc <;> rfl
  induction h with
  | @last xs hlen =>
      intro after hstart htyped out
      -- a page that is not full ends the reading
      have hshort : ((R.sort xs).take n).length < n := by
        rw [List.length_take, (R.perm xs).length_eq]
        omega
      rw [listPages_last]
      refine followed_last fun s' out => ?_
      refine (keysetPage_runs hc hnum hbound hresume (hR.symm ▸ hstart)).trans ?_
      rw [hR]
      dsimp only
      rw [keysetCursor_short (by rwa [pageRows, List.length_map])]
      cases rowsToRecords select _ <;> exact Iff.rfl
  | @more xs x ps hlen hx _ ih =>
      intro after hstart htyped out
      have hsub : ∀ rec ∈ (R.sort xs).take n, rec ∈ xs := fun rec hrec =>
        (R.perm xs).subset (List.mem_of_mem_take hrec)
      -- a full page has a last record, and its sort key decodes
      have hfull : ((R.sort xs).take n).length = n := by
        rw [List.length_take, (R.perm xs).length_eq]
        omega
      obtain ⟨x', v, hx', hv, hcursor⟩ := keysetCursor_page hc
        (fun rec hrec => htyped rec (hsub rec hrec)) hfull hn
      rw [hx] at hx'
      injection hx' with hx'; subst hx'
      -- the next page starts behind that record
      have hnext := hstart.next (hsub x (List.mem_of_getLast? hx)) (by rw [hkey]; exact hv)
      rw [listPages]
      refine followed_more (fun s' out => ?_)
        (ih hnext fun rec hrec => htyped rec (List.mem_filter.mp hrec).1)
      refine (keysetPage_runs hc hnum hbound hresume (hR.symm ▸ hstart)).trans ?_
      rw [hR]
      dsimp only
      rw [hcursor]
      cases rowsToRecords select _ <;> exact Iff.rfl

/-- Without a key column there is one page. -/
theorem followed_single (hc : sortColumn table = none) (out : Except Error (List (List Value))) :
    Followed (fun after => runKeysetSelect conn
        (keysetPage table select predicate binds order n after)) s none out ↔
      out = listPages table select none [(matching table predicate binds s).take n] := by
  rw [listPages_last]
  refine followed_last fun s' out => ?_
  have hq : keysetQuery (keysetPage table select predicate binds order n none) =
      .ok ⟨.select (projectColumns table select) none table.name (predicate.toList ++ [])
        (some (n, none)), binds.values⟩ := by
    rw [keysetPage, hc]
    cases order <;> rfl
  have hrows : ∀ sql, selectRecords s ⟨sql, binds.values⟩ none table.name predicate.toList
      (some (n, none)) = (matching table predicate binds s).take n := fun _ => rfl
  refine (runKeysetSelect_runs hq fun r s' => select_exec).trans ?_
  rw [List.append_nil, hrows]
  dsimp only [keysetPage]
  rw [hc, keysetCursor_unsorted, pageRows]
  cases rowsToRecords select _ <;> exact Iff.rfl

end ToastySurreal
