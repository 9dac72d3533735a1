import ToastySurreal.Proof.Grouping
import ToastySurreal.Proof.KeyedWrites
import ToastySurreal.Proof.Placeholders

/-!
# Parameters in their places

The statement of an operation has its literals, defaults, cursor and key bound to
parameters. `Lockstep` compares the text and the parameters as they were sent with the
layout of the operation: the same names on both sides, none bound twice, and each
standing where the layout has the value it is bound to. An operation's statement is in
lockstep just if its layout is settled, which it is wherever paths into documents start
at columns.
-/

namespace ToastySurreal

open Prog Results
open Holes (Piece Marks chars Ended)
open Precedence (Tok)

/-- A statement and its parameters say what the layout does. -/
structure Lockstep (q : Query) (l : Layout) : Prop where
  names : ∀ name, .hole name ∈ sqlRead q.sql.text ↔ name ∈ q.binds.map Prod.fst
  nodup : (q.binds.map Prod.fst).Nodup
  places : (sqlRead q.sql.text).map (Piece.map fun name => AssocMap.lookup name q.binds) =
    l.places.map (Piece.map some)

/-! ## From the cells of a statement -/

theorem map_fst_hole {cells : Cells} {name : String} :
    .hole name ∈ cells.map (Piece.map Prod.fst) ↔ ∃ v, .hole (name, v) ∈ cells := by
  rw [List.mem_map]
  constructor
  · intro h
    obtain ⟨cell, hcell, he⟩ := h
    cases cell with
    | char c => exact absurd he (by simp [Piece.map])
    | hole c =>
        injection he with he
        exact ⟨c.2, he ▸ hcell⟩
  · intro h
    obtain ⟨v, hv⟩ := h
    exact ⟨_, hv, rfl⟩

/-- **A statement is in lockstep** just if what belongs in its holes is bound to them. -/
theorem lockstep_iff_cells {q : Query} {l : Layout} {cells : Cells}
    (hread : sqlRead q.sql.text = cells.map (Piece.map Prod.fst))
    (hplaces : cells.map (Piece.map Prod.snd) = l.places) (hcovers : ∀ c ∈ q.binds, .hole c ∈ cells)
    (hnodup : (q.binds.map Prod.fst).Nodup) :
    Lockstep q l ↔ ∀ c, .hole c ∈ cells → c ∈ q.binds := by
  constructor
  · intro h c hc
    have hplace := h.places
    rw [hread, ← hplaces, List.map_map, List.map_map] at hplace
    have hcell := List.map_inj_left.mp hplace _ hc
    simp only [Function.comp_apply, Piece.map, Piece.hole.injEq] at hcell
    exact AssocMap.mem_of_lookup hcell
  · intro hall
    refine ⟨fun name => ?_, hnodup, ?_⟩
    · rw [hread, map_fst_hole, List.mem_map]
      constructor
      · intro h
        obtain ⟨v, hv⟩ := h
        exact ⟨_, hall _ hv, rfl⟩
      · intro h
        obtain ⟨c, hc, rfl⟩ := h
        exact ⟨c.2, hcovers c hc⟩
    · rw [hread, ← hplaces, List.map_map, List.map_map]
      refine List.map_congr_left fun cell hcell => ?_
      cases cell with
      | char c => rfl
      | hole c =>
          have hlookup := AssocMap.lookup_of_mem hnodup (hall c hcell)
          exact congrArg Piece.hole hlookup

/-- A statement whose parameters are all numbered. -/
theorem Writes.lockstep {q : Query} {b : Binds} {l : Layout} (h : Writes .empty b q.sql.text l)
    (hq : q.binds = b.values) : Lockstep q l ↔ l.Settled := by
  obtain ⟨cells, hspells, hplaces, hcovers⟩ := h.spells
  have hnum : b.Numbered := h.numbered Binds.numbered_empty
  have hvals : b.values.map Prod.snd = l.literals := h.values.trans (List.nil_append _)
  rw [lockstep_iff_cells hspells.read hplaces ?_ ?_, hq,
    hspells.agrees _ _ hnum.numbers (List.prefix_refl _), hvals]
  · rfl
  · intro c hc
    rw [hq] at hc
    exact (hcovers c hc).resolve_left List.not_mem_nil
  · rw [hq]
    exact hnum.nodup

/-- A statement about a record: its id is bound by name, the rest numbered. -/
def Layout.about (verb : String) (rid : SurValue) (rest : Layout) : Layout :=
  { rest with places := chars verb.toList ++ .hole rid :: rest.places }

theorem rid_ne_paramName (i : Nat) : "rid" ≠ paramName i := by
  intro h
  have hhead := congrArg (fun s => s.toList.head?) h
  simp [paramName, String.toList_append] at hhead

theorem Writes.lockstep_about {q : Query} {b : Binds} {verb text : String} {rid : SurValue}
    {rest : Layout} (h : Writes .empty b text rest) (hended : Ended sqlMarks text.toList)
    (hverb : Fixed verb) (htext : q.sql.text = verb ++ ("$rid" ++ text))
    (hq : q.binds.Perm (("rid", rid) :: b.values)) :
    Lockstep q (.about verb rid rest) ↔ (Layout.about verb rid rest).Settled := by
  obtain ⟨cells, hspells, hplaces, hcovers⟩ := h.spells
  have hnum : b.Numbered := h.numbered Binds.numbered_empty
  have hvals : b.values.map Prod.snd = rest.literals := h.values.trans (List.nil_append _)
  have hrid : sqlRead "$rid" = [.hole "rid"] := by decide
  have hclosed : Holes.Closed sqlMarks "$rid".toList := by decide
  have hread : sqlRead q.sql.text =
      ((chars verb.toList ++ .hole ("rid", rid) :: cells : Cells)).map (Piece.map Prod.fst) := by
    rw [htext, sqlRead, String.toList_append, Holes.Plain.read_append hverb, String.toList_append,
      Holes.read_append hclosed hended, List.map_append, map_chars, List.map_cons, ← hspells.read]
    exact congrArg _ (congrArg (· ++ sqlRead text) hrid)
  have hnodup : (q.binds.map Prod.fst).Nodup := by
    rw [(hq.map Prod.fst).nodup_iff, List.map_cons, List.nodup_cons]
    exact ⟨hnum.not_rid, hnum.nodup⟩
  have hnumbers : Numbers q.binds (b.values.map Prod.snd) :=
    (hnum.numbers.cons rid_ne_paramName rid).perm hq.symm
  have hfirst : ("rid", rid) ∈ q.binds := hq.mem_iff.mpr List.mem_cons_self
  rw [lockstep_iff_cells hread ?_ ?_ hnodup]
  · have hagrees := hspells.agrees q.binds _ hnumbers (List.prefix_refl _)
    rw [hvals] at hagrees
    refine Iff.trans ?_ hagrees
    simp [hole_mem_chars, hfirst]
  · rw [List.map_append, map_chars, List.map_cons, hplaces]
    rfl
  · intro c hc
    rcases List.mem_cons.mp (hq.mem_iff.mp hc) with rfl | hc
    · simp
    · have hcell := (hcovers c hc).resolve_left List.not_mem_nil
      exact List.mem_append_right _ (List.mem_cons_of_mem _ hcell)

/-! ## Clauses -/

/-- A clause of a statement, left out when there is nothing in it. -/
def Layout.clause (lead sep : String) (ls : List Layout) : Layout :=
  if ls.isEmpty then .text "" else .text lead ++ .join sep ls

theorem WritesAll.isEmpty {ss : List String} {ls : List Layout} {b b' : Binds}
    (h : WritesAll b b' ss ls) : ss.isEmpty = ls.isEmpty := by
  cases h <;> rfl

theorem WritesAll.append {ss ss' : List String} {ls ls' : List Layout} {b b₁ b₂ : Binds}
    (h : WritesAll b b₁ ss ls) (h' : WritesAll b₁ b₂ ss' ls') : WritesAll b b₂ (ss ++ ss')
    (ls ++ ls') := by
  induction h with
  | nil b => exact h'
  | cons h hs ih => exact .cons h (ih h')

theorem WritesAll.clause (lead sep : String) {ss : List String} {ls : List Layout} {b b' : Binds}
    (h : WritesAll b b' ss ls) (hlead : Fixed lead) (hsep : Fixed sep) (hbreak : Breaks sep) :
    Writes b b' (if ss.isEmpty then "" else lead ++ join sep ss) (.clause lead sep ls) := by
  rw [Layout.clause, ← h.isEmpty]
  by_cases hempty : ss.isEmpty
  · rw [if_pos hempty, if_pos hempty]
    have hnil : Fixed "" := by decide
    cases h with
    | nil b => exact .fixed b hnil
    | cons h hs => exact absurd hempty (by simp)
  · rw [if_neg hempty, if_neg hempty]
    exact (h.joined hsep hbreak).after hlead

theorem whereText_writes {clauses : List (List Token)} {ls : List Layout} {b b' : Binds}
    (h : WritesAll b b' (clauses.map tokensText) ls) :
    Writes b b' (whereText clauses) (.clause " WHERE " " AND " ls) := by
  have hclause := h.clause " WHERE " " AND " (by decide) (by decide) (by decide)
  rw [List.isEmpty_map] at hclause
  exact hclause

theorem setText_writes {sets : List SetClause} {ls : List Layout} {b b' : Binds}
    (h : WritesAll b b' (sets.map SetClause.text) ls) :
    Writes b b' (setText sets) (.clause " SET " ", " ls) := by
  have hclause := h.clause " SET " ", " (by decide) (by decide) (by decide)
  rw [List.isEmpty_map] at hclause
  exact hclause

theorem ended_append {s t : String} (hs : Ended sqlMarks s.toList) (ht : Ended sqlMarks t.toList) :
    Ended sqlMarks (s ++ t).toList := by
  rw [String.toList_append]
  cases hlist : s.toList with
  | nil => exact ht
  | cons c cs =>
      rw [hlist] at hs
      exact hs

theorem ended_clause (lead text : String) (hlead : Breaks lead) (empty : Bool) :
    Ended sqlMarks (if empty then "" else lead ++ text).toList := by
  cases empty with
  | true =>
      have hnil : Ended sqlMarks "".toList := by decide
      exact hnil
  | false => exact hlead.append text

/-! ## Selections -/

theorem fixed_join {sep : String} (hsep : Fixed sep) : ∀ {ss : List String}, (∀ s ∈ ss, Fixed s) →
    Fixed (join sep ss)
  | [], _ => (show Fixed "" by decide)
  | [s], h => h s List.mem_cons_self
  | s :: t :: ss, h =>
      ((h s List.mem_cons_self).append hsep).append
        (fixed_join hsep fun u hu => h u (List.mem_cons_of_mem s hu))

theorem fixed_projectionText (items : List ProjItem) : Fixed (projectionText items) := by
  unfold projectionText
  split
  · decide
  · refine fixed_join (by decide) fun s hs => ?_
    obtain ⟨item, _, rfl⟩ := List.mem_map.mp hs
    cases item with
    | key r name =>
        have has : Fixed " AS " := by decide
        exact ((fixed_columnRef r).append has).append (fixed_escapeIdent name)
    | field name => exact fixed_escapeIdent name

/-- The sort key under its alias, if there is one. -/
def sortKeyText : Option (ColumnRef × Direction) → String
  | none => ""
  | some (r, _) => ", " ++ r.text ++ " AS " ++ sortAlias

theorem fixed_sortKeyText (sort : Option (ColumnRef × Direction)) : Fixed (sortKeyText sort) := by
  cases sort with
  | none => decide
  | some sort =>
      have hcomma : Fixed ", " := by decide
      have halias : Fixed (" AS " ++ sortAlias) := by decide
      have htext : sortKeyText (some sort) = ", " ++ sort.1.text ++ (" AS " ++ sortAlias) :=
        String.append_assoc ..
      rw [htext]
      exact (hcomma.append (fixed_columnRef sort.1)).append halias

theorem fixed_limitText (limit : Option (Nat × Option Nat)) : Fixed (limitText limit) := by
  have hlimit : Fixed " LIMIT " := by decide
  have hstart : Fixed " START " := by decide
  rcases limit with _ | ⟨limit, _ | start⟩
  · decide
  · exact hlimit.append (fixed_toString limit)
  · exact ((hlimit.append (fixed_toString limit)).append hstart).append (fixed_toString start)

theorem ended_limitText (limit : Option (Nat × Option Nat)) :
    Ended sqlMarks (limitText limit).toList := by
  have hlimit : Breaks " LIMIT " := by decide
  rcases limit with _ | ⟨limit, _ | start⟩
  · decide
  · exact hlimit.append _
  · rw [limitText, String.append_assoc, String.append_assoc]
    exact hlimit.append _

theorem fixed_sortText (sort : Option (ColumnRef × Direction)) : Fixed (sortText sort) := by
  have hasc : Fixed (" ORDER BY " ++ sortAlias ++ " " ++ Direction.asc.text) := by decide
  have hdesc : Fixed (" ORDER BY " ++ sortAlias ++ " " ++ Direction.desc.text) := by decide
  rcases sort with _ | ⟨r, _ | _⟩
  · decide
  · exact hasc
  · exact hdesc

theorem ended_sortText (sort : Option (ColumnRef × Direction)) (limit : Option (Nat × Option Nat)) :
    Ended sqlMarks (sortText sort ++ limitText limit).toList := by
  rcases sort with _ | ⟨r, dir⟩
  · rw [sortText, String.empty_append]
    exact ended_limitText limit
  · have horder : Breaks " ORDER BY " := by decide
    rw [sortText, String.append_assoc, String.append_assoc, String.append_assoc]
    exact horder.append _

/-- What is selected, from where, in which order and how much. -/
def Layout.select (projection : List ProjItem) (sort : Option (ColumnRef × Direction))
    (name : String) (clauses : List Layout) (limit : Option (Nat × Option Nat)) : Layout :=
  .text ("SELECT " ++ projectionText projection ++ sortKeyText sort ++ " FROM " ++
    escapeIdent name) ++
    (.clause " WHERE " " AND " clauses ++ .text (sortText sort ++ limitText limit))

theorem Writes.select {projection : List ProjItem} {sort : Option (ColumnRef × Direction)}
    {name : String} {clauses : List (List Token)} {limit : Option (Nat × Option Nat)}
    {ls : List Layout} {b b' : Binds} (h : WritesAll b b' (clauses.map tokensText) ls) :
    Writes b b' (Sql.text (.select projection sort name clauses limit))
      (.select projection sort name ls limit) := by
  have hselect : Fixed "SELECT " := by decide
  have hfrom : Fixed " FROM " := by decide
  have hhead := (((hselect.append (fixed_projectionText projection)).append
    (fixed_sortKeyText sort)).append hfrom).append (fixed_escapeIdent name)
  have htail : Fixed (sortText sort ++ limitText limit) :=
    (fixed_sortText sort).append (fixed_limitText limit)
  have hall := ((whereText_writes h).append (.fixed b' htail) (ended_sortText sort limit)).after
    hhead
  have htext : Sql.text (.select projection sort name clauses limit) =
      "SELECT " ++ projectionText projection ++ sortKeyText sort ++ " FROM " ++ escapeIdent name ++
        (whereText clauses ++ (sortText sort ++ limitText limit)) := by
    rw [← String.append_assoc, ← String.append_assoc]
    cases sort <;> rfl
  rw [htext]
  exact hall

section

variable [Sdk] {table : Table} {conn : Connection}

/-! ## The reading operations -/

/-- The clause a page resumes by. -/
def resumeLayout (input : KeysetSelect) : List Layout :=
  match input.limit with
  | some (.cursor _ (some cursor)) =>
      let op := match effectiveOrder input with
        | some .desc => Op.lt
        | _ => Op.gt
      [.text input.sortRef.text ++ .text op.text ++ .value (literal cursor none)]
  | _ => []

def keysetLayout (input : KeysetSelect) (clauses : List Layout) : Layout :=
  .select input.projection (sortOf input) input.tableName (clauses ++ resumeLayout input)
    (limitOf input.limit)

theorem resumePart_writes {input : KeysetSelect} {resume : List (List Token)} {b : Binds}
    (h : resumePart input = .ok (resume, b)) :
    WritesAll input.binds b (resume.map tokensText) (resumeLayout input) := by
  rcases hlimit : input.limit with _ | ⟨limit, offset⟩ | ⟨size, _ | cursor⟩
  all_goals simp only [resumePart, resumeLayout, hlimit] at h ⊢
  case some.cursor.some =>
    obtain ⟨s, hs, hok⟩ := bind_eq_ok h
    injection hok with hok; injection hok with h1 h2; subst h1 h2
    have hstored : toSurrealWithStorage cursor none = .ok s := hs
    have hcolumn : Writes input.binds input.binds (tokensText [.atom (.ref input.sortRef [])])
        (.text input.sortRef.text) := by
      rw [tokensText_single, tokenText_reference]
      exact .fixed _ (fixed_columnRef _)
    have hclause := fun o => hcolumn.op o (writes_value hstored)
    exact .cons (hclause _) (.nil _)
  -- there is nothing to resume from
  all_goals
    injection h with h; injection h with h1 h2; subst h1 h2
    exact .nil _

theorem keysetQuery_lockstep {input : KeysetSelect} {q : Query} {clauses : List Layout}
    (h : keysetQuery input = .ok q)
    (hclauses : WritesAll .empty input.binds (input.predicate.toList.map tokensText) clauses) :
    Lockstep q (keysetLayout input clauses) ↔ (keysetLayout input clauses).Settled := by
  unfold keysetQuery at h
  obtain ⟨⟨resume, b⟩, hresume, hok⟩ := bind_eq_ok h
  injection hok with hok; subst hok
  have hall := hclauses.append (resumePart_writes hresume)
  rw [← List.map_append] at hall
  exact (Writes.select hall).lockstep rfl

theorem asks_keyset {input : KeysetSelect} {P : Query → Prop}
    (h : ∀ q, keysetQuery input = .ok q → P q) :
    (runKeysetSelect conn input).Asks (Routed conn P) :=
  Asks.lift_bind fun q hq => (asks_runQuery (h q hq)).bind fun _ =>
    (Asks.lift _).bind fun _ => (Asks.lift _).bind fun _ => trivial

/-- The key filter, and the filter, if there is one. -/
def QueryPk.predicateLayout (table : Table) (op : QueryPk) : Layout :=
  let keys := ToastySurreal.layout table op.pkFilter none
  match op.filter with
  | none => keys
  | some filter => .enclosed "(" keys ")" ++ .text (Op.text .and) ++
      .enclosed "(" (ToastySurreal.layout table filter none) ")"

def QueryPk.layout (table : Table) (op : QueryPk) : Layout :=
  keysetLayout
    { tableName := table.name
      projection := projectColumns table (op.select.map table.column)
      predicate := none
      sortRef := sortRef table
      sortColumn := sortColumn table
      order := op.order
      limit := op.limit
      binds := .empty
      select := op.select.map table.column } [op.predicateLayout table]

def Scan.layout (table : Table) (op : Scan) : Layout :=
  keysetLayout
    { tableName := table.name
      projection := projectColumns table (scanSelect table op)
      predicate := none
      sortRef := sortRef table
      sortColumn := sortColumn table
      order := none
      limit := op.limit
      binds := .empty
      select := scanSelect table op }
      (op.filter.toList.map fun e => ToastySurreal.layout table e none)

def FindPkByIndex.layout (table : Table) (op : FindPkByIndex) : Layout :=
  .select (projectColumns table table.primaryKeyColumns) none table.name
    [ToastySurreal.layout table op.filter none] none

/-- The layout of the filters of a key query. -/
theorem queryPkPredicate_writes {op : QueryPk} {predicate : List Token} {b : Binds}
    (h : queryPkPredicate table op = .ok (predicate, b)) :
    Writes .empty b (tokensText predicate) (op.predicateLayout table) := by
  rw [queryPkPredicate] at h
  obtain ⟨⟨toks, b₁⟩, hkeys, hrest⟩ := bind_eq_ok h
  rw [QueryPk.predicateLayout]
  cases hfilter : op.filter with
  | none =>
      rw [hfilter] at hrest
      injection hrest with hrest; injection hrest with h1 h2; subst h1 h2
      exact renderWithStorage_writes _ hkeys
  | some filter =>
      rw [hfilter] at hrest
      obtain ⟨⟨extra, b₂⟩, hextra, hok⟩ := bind_eq_ok hrest
      injection hok with hok; injection hok with h1 h2; subst h1 h2
      exact (renderWithStorage_writes _ hkeys).parens.op .and
        (renderWithStorage_writes _ hextra).parens

theorem queryPk_lockstep (op : QueryPk) : (execQueryPk conn table op).Asks
    (Routed conn fun q => Lockstep q (op.layout table) ↔ (op.layout table).Settled) := by
  refine Asks.lift_bind fun found hfound => asks_keyset fun q hq => ?_
  have hlockstep := keysetQuery_lockstep hq (.cons (queryPkPredicate_writes hfound) (.nil _))
  exact hlockstep

theorem scanPredicate_writes {filter : Option Expr} {predicate : Option (List Token)} {b : Binds}
    (h : scanPredicate table filter = .ok (predicate, b)) :
    WritesAll .empty b (predicate.toList.map tokensText)
    (filter.toList.map fun e => layout table e none) := by
  cases filter with
  | none =>
      injection h with h; injection h with h1 h2; subst h1 h2
      exact .nil _
  | some filter =>
      obtain ⟨⟨toks, b₁⟩, hrender, hok⟩ := bind_eq_ok h
      injection hok with hok; injection hok with h1 h2; subst h1 h2
      exact .cons (renderWithStorage_writes _ hrender) (.nil _)

theorem scan_lockstep (op : Scan) : (execScan conn table op).Asks
    (Routed conn fun q => Lockstep q (op.layout table) ↔ (op.layout table).Settled) := by
  refine Asks.lift_bind fun found hfound => asks_keyset fun q hq => ?_
  have hlockstep := keysetQuery_lockstep hq (scanPredicate_writes hfound)
  exact hlockstep

theorem findPkByIndex_lockstep (op : FindPkByIndex) : (execFindPkByIndex conn table op).Asks
    (Routed conn fun q => Lockstep q (op.layout table) ↔ (op.layout table).Settled) := by
  refine Asks.lift_bind fun found hfound => ?_
  obtain ⟨predicate, b⟩ := found
  have hwrites := renderWithStorage_writes _ hfound
  refine (asks_runQuery ?_).bind fun _ => (Asks.lift _).bind fun _ => trivial
  exact (Writes.select (.cons hwrites (.nil _))).lockstep rfl

/-! ## Updates and deletions -/

/-- The predicates of a filter and a condition. -/
def predicateLayouts (table : Table) (exprs : List (Option Expr)) : List Layout :=
  exprs.filterMap (Option.map fun e => layout table e none)

theorem renderPredicates_writes : ∀ {exprs : List (Option Expr)} {b b' : Binds}
    {clauses : List (List Token)}, renderPredicates table b exprs = .ok (clauses, b') →
    WritesAll b b' (clauses.map tokensText) (predicateLayouts table exprs)
  | [], b, b', clauses, h => by
      injection h with h; injection h with h1 h2; subst h1 h2
      exact .nil b
  | none :: rest, b, b', clauses, h => by
      rw [renderPredicates] at h
      have hrest := renderPredicates_writes h
      exact hrest
  | some e :: rest, b, b', clauses, h => by
      rw [renderPredicates] at h
      obtain ⟨⟨t₁, b₁⟩, h₁, hr⟩ := bind_eq_ok h
      obtain ⟨⟨clauses', b₂⟩, h₂, hok⟩ := bind_eq_ok hr
      injection hok with hok; injection hok with h1 h2; subst h1 h2
      exact .cons (renderWithStorage_writes e h₁) (renderPredicates_writes h₂)

/-- The stored form of what is assigned. -/
def columnValue (c : Column) (v : Value) : Layout := .value (literal v (some c.storageTy))

/-- `col = value`, where `null` removes. -/
def setLayout (c : Column) (v : Value) : Layout :=
  if v.isNull then .text (escapeIdent c.name ++ " = NONE")
  else .text (escapeIdent c.name ++ " = ") ++ columnValue c v

def assignmentLayout (c : Column) : Assignment → Layout
  | .set v => setLayout c v
  | .add v => .text (escapeIdent c.name ++ " = " ++ escapeIdent c.name ++ " + ") ++ columnValue c v
  | .subtract v =>
      .text (escapeIdent c.name ++ " = " ++ escapeIdent c.name ++ " - ") ++ columnValue c v
  | .append v => .text (escapeIdent c.name ++ " += ") ++ columnValue c (.list v.appends)
  | .other _ => .text ""

/-- A parameter after a text that ends in its sigil. -/
theorem pushed_writes {c : Column} {v : Value} {s : SurValue} {before : String} (b : Binds)
    (hs : toSurrealForColumn v c = .ok s) (hbefore : Fixed before) :
    Writes b (b.push s).2 (before ++ ("$" ++ (b.push s).1)) (.text before ++ columnValue c v) := by
  rw [columnValue, literal_ok hs]
  exact (Writes.push b s).after hbefore

theorem appended_eq (v : Value) (c : Column) :
    appended v c = toSurrealForColumn (.list v.appends) c := by
  cases v <;> rfl

omit [Sdk] in
/-- The texts of clauses, the parameter apart. -/
theorem SetClause.text_param (name p : String) :
    SetClause.text ⟨name, .param p⟩ = escapeIdent name ++ " = " ++ ("$" ++ p) := by
  have hdollar : " = $" = " = " ++ "$" := by decide
  simp only [SetClause.text, hdollar, String.append_assoc]

omit [Sdk] in
theorem SetClause.text_plus (name p : String) :
    SetClause.text ⟨name, .plus p⟩ = escapeIdent name ++ " = " ++ escapeIdent name ++ " + " ++
    ("$" ++ p) := by
  have hdollar : " + $" = " + " ++ "$" := by decide
  simp only [SetClause.text, hdollar, String.append_assoc]

omit [Sdk] in
theorem SetClause.text_minus (name p : String) :
    SetClause.text ⟨name, .minus p⟩ = escapeIdent name ++ " = " ++ escapeIdent name ++ " - " ++
    ("$" ++ p) := by
  have hdollar : " - $" = " - " ++ "$" := by decide
  simp only [SetClause.text, hdollar, String.append_assoc]

omit [Sdk] in
theorem SetClause.text_append (name p : String) :
    SetClause.text ⟨name, .append p⟩ = escapeIdent name ++ " += " ++ ("$" ++ p) := by
  have hdollar : " += $" = " += " ++ "$" := by decide
  simp only [SetClause.text, hdollar, String.append_assoc]

omit [Sdk] in
theorem SetClause.text_orParam (name p : String) :
    SetClause.text ⟨name, .orParam p⟩ = escapeIdent name ++ " = " ++ escapeIdent name ++ " ?? " ++
    ("$" ++ p) := by
  have hdollar : " ?? $" = " ?? " ++ "$" := by decide
  simp only [SetClause.text, hdollar, String.append_assoc]

omit [Sdk] in
theorem fixed_assign : Fixed " = " := by decide

/-- A plain assignment, in an update or an upsert. -/
theorem set_writes {c : Column} {v : Value} {b b' : Binds} {clause : SetClause}
    (h : (if v.isNull then .ok (⟨c.name, .none⟩, b)
      else do .ok (pushClause b c .param (← toSurrealForColumn v c))) = .ok (clause, b')) :
    Writes b b' clause.text (setLayout c v) := by
  have hname := fixed_escapeIdent c.name
  rw [setLayout]
  split at h
  · rename_i hnull
    injection h with h; injection h with h1 h2; subst h1 h2
    have hnone : Fixed " = NONE" := by decide
    rw [if_pos hnull]
    exact .fixed b (hname.append hnone)
  · rename_i hnull
    obtain ⟨s, hs, hok⟩ := bind_eq_ok h
    injection hok with hok; injection hok with h1 h2; subst h1 h2
    rw [if_neg hnull, SetClause.text_param]
    exact pushed_writes b hs (hname.append fixed_assign)

theorem renderAssignment_writes {c : Column} {b b' : Binds} {assignment : Assignment}
    {clause : SetClause} (h : renderAssignment c b assignment = .ok (clause, b')) :
    Writes b b' clause.text (assignmentLayout c assignment) := by
  have hname := fixed_escapeIdent c.name
  have htwice := (hname.append fixed_assign).append hname
  cases assignment with
  | set v => exact set_writes h
  | add v =>
      obtain ⟨s, hs, hok⟩ := bind_eq_ok h
      injection hok with hok; injection hok with h1 h2; subst h1 h2
      have hplus : Fixed " + " := by decide
      rw [SetClause.text_plus]
      exact pushed_writes b hs (htwice.append hplus)
  | subtract v =>
      obtain ⟨s, hs, hok⟩ := bind_eq_ok h
      injection hok with hok; injection hok with h1 h2; subst h1 h2
      have hminus : Fixed " - " := by decide
      rw [SetClause.text_minus]
      exact pushed_writes b hs (htwice.append hminus)
  | append v =>
      obtain ⟨s, hs, hok⟩ := bind_eq_ok h
      injection hok with hok; injection hok with h1 h2; subst h1 h2
      have hplus : Fixed " += " := by decide
      rw [appended_eq] at hs
      rw [SetClause.text_append]
      exact pushed_writes b hs (hname.append hplus)
  | other debug => exact absurd h (by simp [renderAssignment])

theorem renderAssignments_writes : ∀ {assignments : List (ColumnId × Assignment)} {b b' : Binds}
    {clauses : List SetClause}, renderAssignments table b assignments = .ok (clauses, b') →
    WritesAll b b' (clauses.map SetClause.text)
    (assignments.map fun a => assignmentLayout (table.column a.1) a.2)
  | [], b, b', clauses, h => by
      injection h with h; injection h with h1 h2; subst h1 h2
      exact .nil b
  | (cid, assignment) :: rest, b, b', clauses, h => by
      rw [renderAssignments] at h
      obtain ⟨⟨clause, b₁⟩, h₁, hr⟩ := bind_eq_ok h
      obtain ⟨⟨clauses', b₂⟩, h₂, hok⟩ := bind_eq_ok hr
      injection hok with hok; injection hok with h1 h2; subst h1 h2
      exact .cons (renderAssignment_writes h₁) (renderAssignments_writes h₂)

/-- The record id of the one key. -/
def keyValue (table : Table) (keys : List Value) : SurValue :=
  match recordId table (keys.headD .null) with
  | .ok rid => rid.value
  | .error _ => .none

theorem keyValue_ok {key : Value} {rid : RecordId} (h : recordId table key = .ok rid) :
    keyValue table [key] = rid.value := by
  rw [keyValue, List.headD_cons, h]

def UpdateByKey.layout (table : Table) (op : UpdateByKey) : Layout :=
  .about "UPDATE " (keyValue table op.keys)
    (.clause " SET " ", " (op.assignments.map fun a => assignmentLayout (table.column a.1) a.2) ++
      .clause " WHERE " " AND " (predicateLayouts table [op.filter, op.condition]) ++
      .text (returnAfterText op.returning.isSome))

def DeleteByKey.layout (table : Table) (op : DeleteByKey) : Layout :=
  .about "DELETE " (keyValue table op.keys)
    (.clause " WHERE " " AND " (predicateLayouts table [op.filter, op.condition]) ++
      .text " RETURN BEFORE")

omit [Sdk] in
theorem fixed_returnAfterText (returnAfter : Bool) : Fixed (returnAfterText returnAfter) := by
  cases returnAfter <;> decide

omit [Sdk] in
theorem ended_returnAfterText (returnAfter : Bool) :
    Ended sqlMarks (returnAfterText returnAfter).toList := by
  cases returnAfter <;> decide

omit [Sdk] in
theorem ended_whereText (clauses : List (List Token)) : Ended sqlMarks (whereText clauses).toList :=
  ended_clause _ _ (by decide) _

omit [Sdk] in
theorem ended_setText (sets : List SetClause) : Ended sqlMarks (setText sets).toList :=
  ended_clause _ _ (by decide) _

omit [Sdk] in
theorem about_text {word verb s : String} (h : word = verb ++ "$rid") :
    word ++ s = verb ++ ("$rid" ++ s) := by
  rw [h, String.append_assoc]

theorem updateQuery_lockstep {op : UpdateByKey} {key : Value} {q : Query} (hkey : op.keys = [key])
    (h : updateQuery table op key = .ok q) :
    Lockstep q (op.layout table) ↔ (op.layout table).Settled := by
  unfold updateQuery at h
  obtain ⟨⟨sets, b₁⟩, hsets, hr₁⟩ := bind_eq_ok h
  obtain ⟨⟨clauses, b₂⟩, hclauses, hr₂⟩ := bind_eq_ok hr₁
  obtain ⟨rid, hrid, hok⟩ := bind_eq_ok hr₂
  injection hok with hok; subst hok
  have hset := setText_writes (renderAssignments_writes hsets)
  have hwhere := whereText_writes (renderPredicates_writes hclauses)
  have hreturn := Writes.fixed b₂ (fixed_returnAfterText op.returning.isSome)
  have hall := (hset.append hwhere (ended_whereText clauses)).append hreturn
    (ended_returnAfterText _)
  have hended := ended_append (ended_append (ended_setText sets) (ended_whereText clauses))
    (ended_returnAfterText op.returning.isSome)
  have hverb : "UPDATE $rid" = "UPDATE " ++ "$rid" := by decide
  rw [UpdateByKey.layout, hkey, keyValue_ok hrid]
  refine hall.lockstep_about hended (by decide) ?_ List.perm_append_comm
  have hassoc : ∀ s t u w : String, s ++ t ++ u ++ w = s ++ (t ++ u ++ w) := fun s t u w => by
    simp only [String.append_assoc]
  exact (hassoc ..).trans (about_text hverb)

theorem deleteQuery_lockstep {op : DeleteByKey} {key : Value} {q : Query} (hkey : op.keys = [key])
    (h : deleteQuery table op key = .ok q) :
    Lockstep q (op.layout table) ↔ (op.layout table).Settled := by
  unfold deleteQuery at h
  obtain ⟨⟨clauses, b₁⟩, hclauses, hr₁⟩ := bind_eq_ok h
  obtain ⟨rid, hrid, hok⟩ := bind_eq_ok hr₁
  injection hok with hok; subst hok
  have hreturn : Fixed " RETURN BEFORE" := by decide
  have hwhere := whereText_writes (renderPredicates_writes hclauses)
  have hall := hwhere.append (.fixed b₁ hreturn) (by decide)
  have hended := ended_append (ended_whereText clauses)
    (show Ended sqlMarks " RETURN BEFORE".toList by decide)
  have hverb : "DELETE $rid" = "DELETE " ++ "$rid" := by decide
  rw [DeleteByKey.layout, hkey, keyValue_ok hrid]
  refine hall.lockstep_about hended (by decide) ?_ List.perm_append_comm
  exact (String.append_assoc ..).trans (about_text hverb)

theorem updateByKey_lockstep (op : UpdateByKey) : (execUpdateByKey conn table op).Asks
    (Routed conn fun q => Lockstep q (op.layout table) ↔ (op.layout table).Settled) := by
  refine (asks_execUpdateByKey op).mono (Routed.mono fun q hq => ?_)
  obtain ⟨key, hkey, hsent⟩ := hq
  exact updateQuery_lockstep hkey hsent

theorem deleteByKey_lockstep (op : DeleteByKey) : (execDeleteByKey conn table op).Asks
    (Routed conn fun q => Lockstep q (op.layout table) ↔ (op.layout table).Settled) := by
  refine (asks_execDeleteByKey op).mono (Routed.mono fun q hq => ?_)
  obtain ⟨key, hkey, hsent⟩ := hq
  exact deleteQuery_lockstep hkey hsent

/-! ## Upserts -/

/-- A default that was declared as a literal. -/
def defaultLayout (c : Column) : Option Assignment → Layout
  | some (.set v) => columnValue c v
  | _ => .text ""

/-- A shared mutation, folding the default in where it is an operator. -/
def sharedLayout (c : Column) (default : Option Assignment) : Assignment → Layout
  | .set v => setLayout c v
  | .add v =>
      .text (escapeIdent c.name ++ " = (" ++ escapeIdent c.name ++ " ?? ") ++
        defaultLayout c default ++
      (.text ") + " ++ columnValue c v)
  | .subtract v => .text (escapeIdent c.name ++ " = (" ++ escapeIdent c.name ++ " ?? ") ++
      defaultLayout c default ++ (.text ") - " ++ columnValue c v)
  | .append v =>
      .text (escapeIdent c.name ++ " = array::concat(" ++ escapeIdent c.name ++ " ?? ") ++
      defaultLayout c default ++ (.text ", " ++ columnValue c (.list v.appends)) ++ .text ")"
  | .other _ => .text ""

/-- The create-only columns of a row, from a position on. -/
def createOnlyLayouts (table : Table) (clause : UpsertClause) (row : Row) :
    List ColumnId → Nat → List Layout
  | [], _ => []
  | cid :: columns, position =>
      let column := table.column cid
      let rest := createOnlyLayouts table clause row columns (position + 1)
      let value := rowAt row position
      if isPrimaryKey table column || (mutationOf clause.shared column.id).isSome then rest
      else if value.isNull then rest
      else (.text (escapeIdent column.name ++ " = " ++ escapeIdent column.name ++ " ?? ") ++
        columnValue column value) :: rest

omit [Sdk] in
theorem SetClause.text_orPlus (name d p : String) : SetClause.text ⟨name, .orPlus d p⟩ =
    escapeIdent name ++ " = (" ++ escapeIdent name ++ " ?? " ++ ("$" ++ d) ++
    (") + " ++ ("$" ++ p)) := by
  have hdefault : " ?? $" = " ?? " ++ "$" := by decide
  have hdollar : ") + $" = ") + " ++ "$" := by decide
  simp only [SetClause.text, hdefault, hdollar, String.append_assoc]

omit [Sdk] in
theorem SetClause.text_orMinus (name d p : String) : SetClause.text ⟨name, .orMinus d p⟩ =
    escapeIdent name ++ " = (" ++ escapeIdent name ++ " ?? " ++ ("$" ++ d) ++
    (") - " ++ ("$" ++ p)) := by
  have hdefault : " ?? $" = " ?? " ++ "$" := by decide
  have hdollar : ") - $" = ") - " ++ "$" := by decide
  simp only [SetClause.text, hdefault, hdollar, String.append_assoc]

omit [Sdk] in
theorem SetClause.text_orConcat (name d p : String) : SetClause.text ⟨name, .orConcat d p⟩ =
    escapeIdent name ++ " = array::concat(" ++ escapeIdent name ++ " ?? " ++ ("$" ++ d) ++
      (", " ++ ("$" ++ p)) ++ ")" := by
  have hdefault : " ?? $" = " ?? " ++ "$" := by decide
  have hdollar : ", $" = ", " ++ "$" := by decide
  simp only [SetClause.text, hdefault, hdollar, String.append_assoc]

theorem defaultParam_writes {c : Column} {default : Option Assignment} {d before : String}
    {b b' : Binds} (h : defaultParam c b default = .ok (d, b')) (hbefore : Fixed before) :
    Writes b b' (before ++ ("$" ++ d)) (.text before ++ defaultLayout c default) := by
  unfold defaultParam at h
  split at h
  · obtain ⟨s, hs, hok⟩ := bind_eq_ok h
    injection hok with hok; injection hok with h1 h2; subst h1 h2
    exact pushed_writes b hs hbefore
  · exact absurd h (by simp)

theorem renderSharedMutation_writes {c : Column} {default : Option Assignment} {b b' : Binds}
    {assignment : Assignment} {clause : SetClause}
    (h : renderSharedMutation c default b assignment = .ok (clause, b')) :
    Writes b b' clause.text (sharedLayout c default assignment) := by
  have hname := fixed_escapeIdent c.name
  have hopen : Fixed " = (" := by decide
  have hor : Fixed " ?? " := by decide
  have hbefore := ((hname.append hopen).append hname).append hor
  cases assignment with
  | set v => exact set_writes h
  | add v =>
      obtain ⟨⟨d, b₁⟩, hd, hr⟩ := bind_eq_ok h
      obtain ⟨s, hs, hok⟩ := bind_eq_ok hr
      injection hok with hok; injection hok with h1 h2; subst h1 h2
      have hplus : Fixed ") + " := by decide
      have hsep : Breaks ") + " := by decide
      rw [SetClause.text_orPlus]
      exact (defaultParam_writes hd hbefore).append (pushed_writes b₁ hs hplus) (hsep.append _)
  | subtract v =>
      obtain ⟨⟨d, b₁⟩, hd, hr⟩ := bind_eq_ok h
      obtain ⟨s, hs, hok⟩ := bind_eq_ok hr
      injection hok with hok; injection hok with h1 h2; subst h1 h2
      have hminus : Fixed ") - " := by decide
      have hsep : Breaks ") - " := by decide
      rw [SetClause.text_orMinus]
      exact (defaultParam_writes hd hbefore).append (pushed_writes b₁ hs hminus) (hsep.append _)
  | append v =>
      obtain ⟨⟨d, b₁⟩, hd, hr⟩ := bind_eq_ok h
      obtain ⟨s, hs, hok⟩ := bind_eq_ok hr
      injection hok with hok; injection hok with h1 h2; subst h1 h2
      have hconcat : Fixed " = array::concat(" := by decide
      have hcomma : Fixed ", " := by decide
      have hsep : Breaks ", " := by decide
      have hclose : Fixed ")" := by decide
      rw [appended_eq] at hs
      rw [SetClause.text_orConcat]
      have hdefault := defaultParam_writes hd (((hname.append hconcat).append hname).append hor)
      exact (hdefault.append (pushed_writes b₁ hs hcomma) (hsep.append _)).append (.fixed _ hclose)
        (by decide)
  | other debug => exact absurd h (by simp [renderSharedMutation])

theorem sharedSets_writes {clause : UpsertClause} :
    ∀ {shared : List (ColumnId × Assignment)} {b b' : Binds}
    {sets : List SetClause}, sharedSets table clause b shared = .ok (sets, b') →
    WritesAll b b' (sets.map SetClause.text)
      (shared.map fun a => sharedLayout (table.column a.1) (mutationOf clause.defaults a.1) a.2)
  | [], b, b', sets, h => by
      injection h with h; injection h with h1 h2; subst h1 h2
      exact .nil b
  | (cid, assignment) :: rest, b, b', sets, h => by
      rw [sharedSets] at h
      obtain ⟨⟨set, b₁⟩, h₁, hr⟩ := bind_eq_ok h
      obtain ⟨⟨sets', b₂⟩, h₂, hok⟩ := bind_eq_ok hr
      injection hok with hok; injection hok with h1 h2; subst h1 h2
      exact .cons (renderSharedMutation_writes h₁) (sharedSets_writes h₂)

omit [Sdk] in
theorem WritesAll.eq_nil {b b' : Binds} {ss : List String} {ls : List Layout}
    (h : WritesAll b b' ss ls) (hss : ss = []) : b' = b ∧ ls = [] := by
  cases h with
  | nil => exact ⟨rfl, rfl⟩
  | cons h hs => exact absurd hss (by simp)

theorem createOnlySets_writes {clause : UpsertClause} {row : Row} : ∀ {columns : List ColumnId}
    {position : Nat} {b b' : Binds} {sets : List SetClause},
    createOnlySets table clause row columns position b = .ok (sets, b') →
    WritesAll b b' (sets.map SetClause.text) (createOnlyLayouts table clause row columns position)
  | [], position, b, b', sets, h => by
      injection h with h; injection h with h1 h2; subst h1 h2
      exact .nil b
  | cid :: columns, position, b, b', sets, h => by
      rw [createOnlySets] at h
      rw [createOnlyLayouts]
      dsimp only at h ⊢
      -- key columns, shared columns and nulls have no clause
      split at h
      · rename_i hskip
        rw [if_pos hskip]
        exact createOnlySets_writes h
      · rename_i hskip
        rw [if_neg hskip]
        obtain ⟨value, hvalue, hr⟩ := bind_eq_ok h
        rw [← rowValue_ok hvalue]
        split at hr
        · rename_i hnull
          rw [if_pos hnull]
          exact createOnlySets_writes hr
        · rename_i hnull
          obtain ⟨s, hs, hr₁⟩ := bind_eq_ok hr
          obtain ⟨⟨sets', b₂⟩, hrest, hok⟩ := bind_eq_ok hr₁
          injection hok with hok; injection hok with h1 h2; subst h1 h2
          have hname := fixed_escapeIdent (table.column cid).name
          have hor : Fixed " ?? " := by decide
          rw [if_neg hnull]
          refine .cons ?_ (createOnlySets_writes hrest)
          rw [pushClause, SetClause.text_orParam]
          exact pushed_writes b hs (((hname.append fixed_assign).append hname).append hor)

/-- The `UPSERT` of the update action: everything assigned, or nothing but the content. -/
def mutationLayout (table : Table) (op : Upsert) (clause : UpsertClause) (row : Row)
    (content : Object) : Layout :=
  let sets := createOnlyLayouts table clause row op.insert.columns 0 ++
    clause.shared.map fun a => sharedLayout (table.column a.1) (mutationOf clause.defaults a.1) a.2
  if sets.isEmpty then .text " MERGE " ++ .value (.object content) else .clause " SET " ", " sets

/-- The `CREATE` of a row. -/
def createLayout (rid : RecordId) (content : Object) (returning : Bool) : Layout :=
  .about "CREATE " rid.value
    ⟨chars " CONTENT ".toList ++ .hole (.object content) ::
      chars (returnAfterText returning).toList, [], []⟩

def upsertLayout (table : Table) (op : Upsert) (clause : UpsertClause) (row : Row) (rid : RecordId)
    (content : Object) (returning : Bool) : Layout :=
  match clause.action with
  | .update => .about "UPSERT " rid.value
      (mutationLayout table op clause row content ++ .text (returnAfterText returning))
  | .ignore => createLayout rid content returning

def Upsert.layout (table : Table) (op : Upsert) : Layout :=
  match upsertSource table op with
  | .error _ => .text ""
  | .ok (clause, row) =>
      match buildRow "upsert" table op.insert.columns row with
      | .error _ => .text ""
      | .ok (rid, content) =>
          upsertLayout table op clause row rid content op.insert.returning.isSome

omit [Sdk] in
theorem returningColumns_isSome {op : String} {returning : Option Returning}
    {out : Option (List Column)}
    (h : returningColumns op table returning = .ok out) : out.isSome = returning.isSome := by
  cases returning with
  | none => injection h with h; subst h; rfl
  | some returning =>
      cases returning with
      | notProjection | notRecord => exact absurd h (by simp [returningColumns])
      | record items =>
          rw [returningColumns] at h
          obtain ⟨columns, _, hok⟩ := bind_eq_ok h
          injection hok with hok; subst hok
          rfl

omit [Sdk] in
theorem create_lockstep {rid : RecordId} {content : Object} {want : Bool} :
    Lockstep (createQuery rid content want) (createLayout rid content want) := by
  have hstart : sqlRead "CREATE $rid CONTENT $data" =
      chars "CREATE ".toList ++ .hole "rid" :: (chars " CONTENT ".toList ++ [.hole "data"]) := by
      decide
  have hclosed : Holes.Closed sqlMarks "CREATE $rid CONTENT $data".toList := by decide
  have hreturn : sqlRead (returnAfterText want) = chars (returnAfterText want).toList :=
    (fixed_returnAfterText want).read
  have hread : sqlRead (createQuery rid content want).sql.text =
      ((chars "CREATE ".toList ++ .hole ("rid", rid.value) :: (chars " CONTENT ".toList ++
        .hole ("data", .object content) :: chars (returnAfterText want).toList) : Cells)).map
          (Piece.map Prod.fst) := by
    have happend := Holes.read_append hclosed (ended_returnAfterText want)
    rw [← String.toList_append] at happend
    refine happend.trans ?_
    change sqlRead "CREATE $rid CONTENT $data" ++ sqlRead (returnAfterText want) = _
    rw [hstart, hreturn]
    simp [chars, Piece.map]
  refine (lockstep_iff_cells hread ?_ ?_ ?_).mpr ?_
  · simp [chars, Piece.map, createLayout, Layout.about]
  · intro c hc
    have hcases : c = ("rid", rid.value) ∨ c = ("data", .object content) := by
      simpa [createQuery] using hc
    rcases hcases with rfl | rfl <;> simp
  · have hne : "rid" ≠ "data" := by decide
    simp [createQuery, hne]
  · intro c hc
    have hcases : c = ("rid", rid.value) ∨ c = ("data", .object content) := by
      simpa [hole_mem_chars] using hc
    rcases hcases with rfl | rfl <;> simp [createQuery]

omit [Sdk] in
theorem createLayout_settled {rid : RecordId} {content : Object} {want : Bool} :
    (createLayout rid content want).Settled := fun _ h => absurd h List.not_mem_nil

omit [Sdk] in
theorem merge_text {p returning : String} : "UPSERT $rid MERGE $" ++ p ++ returning =
    "UPSERT " ++ ("$rid" ++ (" MERGE " ++ ("$" ++ p) ++ returning)) := by
  have hword : "UPSERT $rid MERGE $" = "UPSERT " ++ ("$rid" ++ (" MERGE " ++ "$")) := by decide
  rw [hword]
  generalize "UPSERT " = s
  generalize "$rid" = t
  generalize " MERGE " = u
  simp only [String.append_assoc]

theorem upsertQuery_lockstep {op : Upsert} {clause : UpsertClause} {row : Row} {rid : RecordId}
    {content : Object} {want : Bool} {q : Query} {l : Layout}
    (h : upsertQuery table op.insert clause row rid content want = .ok q)
    (hl : l = .about "UPSERT " rid.value
      (mutationLayout table op clause row content ++ .text (returnAfterText want))) :
    Lockstep q l ↔ l.Settled := by
  subst hl
  unfold upsertQuery at h
  obtain ⟨⟨created, b₁⟩, hcreated, hr₁⟩ := bind_eq_ok h
  obtain ⟨⟨shared, b₂⟩, hshared, hr₂⟩ := bind_eq_ok hr₁
  have hall := (createOnlySets_writes hcreated).append (sharedSets_writes hshared)
  rw [← List.map_append] at hall
  have hsame := hall.isEmpty
  rw [List.isEmpty_map] at hsame
  have hreturn := fixed_returnAfterText want
  have hverb : "UPSERT $rid" = "UPSERT " ++ "$rid" := by decide
  dsimp only at hr₂
  rw [mutationLayout]
  -- with no clause to set, the row's content is merged instead
  split at hr₂
  · rename_i hempty
    injection hr₂ with hr₂; subst hr₂
    obtain ⟨rfl, hls⟩ := hall.eq_nil (by rw [List.isEmpty_iff.mp hempty]; rfl)
    rw [hls, List.isEmpty_nil, if_pos rfl]
    have hlead : Fixed " MERGE " := by decide
    have hbreak : Breaks " MERGE " := by decide
    have hmerge := ((Writes.push .empty (.object content)).after hlead).append (.fixed _ hreturn)
      (ended_returnAfterText want)
    have hended := ended_append (hbreak.append ("$" ++ (Binds.empty.push (.object content)).1))
      (ended_returnAfterText want)
    refine hmerge.lockstep_about hended (by decide) ?_ (List.Perm.refl _)
    exact merge_text
  · rename_i hempty
    injection hr₂ with hr₂; subst hr₂
    rw [hsame] at hempty
    rw [if_neg hempty]
    have hset := (setText_writes hall).append (.fixed b₂ hreturn) (ended_returnAfterText want)
    have hended := ended_append (ended_setText (created ++ shared)) (ended_returnAfterText want)
    refine hset.lockstep_about hended (by decide) ?_ (List.Perm.refl _)
    exact (String.append_assoc ..).trans (about_text hverb)

theorem upsert_lockstep (op : Upsert) : (execUpsert conn table op).Asks
    (Routed conn fun q => Lockstep q (op.layout table) ↔ (op.layout table).Settled) := by
  rw [execUpsert]
  refine Asks.lift_bind fun source hsource => Asks.lift_bind fun built hbuild =>
    Asks.lift_bind fun returning hret => ?_
  have hwant := returningColumns_isSome hret
  obtain ⟨clause, row⟩ := source
  obtain ⟨rid, content⟩ := built
  have hlayout : op.layout table = upsertLayout table op clause row rid content
      returning.isSome := by
    rw [Upsert.layout, hsource, hwant]
    dsimp only
    rw [hbuild]
  rw [upsertLayout] at hlayout
  dsimp only
  cases haction : clause.action with
  | update =>
      rw [haction] at hlayout
      refine Asks.lift_bind fun q hq => (asks_runQuery ?_).bind fun _ => Asks.lift _
      exact upsertQuery_lockstep hq hlayout
  | ignore =>
      rw [haction] at hlayout
      refine (asks_runQuery ?_).attempt.bind fun result => ?_
      · rw [hlayout]
        exact ⟨fun _ => createLayout_settled, fun _ => create_lockstep⟩
      · cases result with
        | ok value => exact Asks.lift _
        | error err =>
            dsimp only
            split <;> trivial

/-! ## Every operation that renders expressions -/

/-- **Parameters are in their places** in what an operation sends, just if every base it
drops holds only what comes first among the values the statement binds. -/
theorem parameters_lockstep_iff (conn : Connection) (table : Table) :
    (∀ op : QueryPk, (execQueryPk conn table op).Asks
      (Routed conn fun q => Lockstep q (op.layout table) ↔ (op.layout table).Settled)) ∧
    (∀ op : Scan, (execScan conn table op).Asks
      (Routed conn fun q => Lockstep q (op.layout table) ↔ (op.layout table).Settled)) ∧
    (∀ op : FindPkByIndex, (execFindPkByIndex conn table op).Asks
      (Routed conn fun q => Lockstep q (op.layout table) ↔ (op.layout table).Settled)) ∧
    (∀ op : UpdateByKey, (execUpdateByKey conn table op).Asks
      (Routed conn fun q => Lockstep q (op.layout table) ↔ (op.layout table).Settled)) ∧
    (∀ op : DeleteByKey, (execDeleteByKey conn table op).Asks
      (Routed conn fun q => Lockstep q (op.layout table) ↔ (op.layout table).Settled)) ∧
    ∀ op : Upsert, (execUpsert conn table op).Asks
      (Routed conn fun q => Lockstep q (op.layout table) ↔ (op.layout table).Settled) :=
  ⟨queryPk_lockstep, scan_lockstep, findPkByIndex_lockstep, updateByKey_lockstep,
    deleteByKey_lockstep, upsert_lockstep⟩

end

/-- Delete todo 1 if the kind of one text is another text. -/
def doneKind : DeleteByKey where
  keys := [.i64 1]
  filter := none
  condition := some (.binaryOp .eq (.jsonExtract (.value (.string "open")) ["kind"])
    (.value (.string "done")))

/-- **A literal compared to itself**: `$p0` stands for both texts, and is bound to the second. -/
theorem kind_of_other : let := plain
    ∃ q, deleteQuery todos doneKind (.i64 1) = .ok q ∧
      q.sql.text = "DELETE $rid WHERE $p0.`kind` = $p0 RETURN BEFORE" ∧
      q.binds = [("p0", .string "done"), ("rid", .recordId "todos" (.number 1))] ∧
      ¬ Lockstep q (doneKind.layout todos) := by
  let := plain
  refine ⟨⟨.delete [[.atom (.raw "$p0" ["kind"]), .op .eq, .atom (.param "p0")]],
    [("p0", .string "done"), ("rid", .recordId "todos" (.number 1))]⟩, rfl, by decide, rfl, ?_⟩
  intro h
  have hsettled := (deleteQuery_lockstep rfl rfl).mp h
  have hfirst : [SurValue.string "open"] <+: [.string "done"] := hsettled _ List.mem_cons_self
  exact absurd hfirst (by decide)

end ToastySurreal
