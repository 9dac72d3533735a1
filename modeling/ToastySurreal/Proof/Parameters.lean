import ToastySurreal.Op.Write
import ToastySurreal.Store

/-!
# Parameters keep their values

Rendering only ever adds parameters, each under the next number, and a rendered
predicate names parameters that were bound by then. So what a predicate means does
not change as the query goes on binding: the resume predicate of a page, the record
id of an update.
-/

namespace ToastySurreal

open Results
open Precedence (Tok)

/-! ## Steady tokens -/

/-- Every parameter the tokens name is bound. -/
def Bound (binds : Binds) (toks : List Token) : Prop :=
  ∀ p, (.atom (.param p) : Token) ∈ toks → p ∈ binds.values.map Prod.fst

theorem Bound.mono {b b' : Binds} {toks : List Token} (hp : b.values <+: b'.values)
    (h : Bound b toks) : Bound b' toks :=
  fun p hmem => (hp.map Prod.fst).subset (h p hmem)

theorem bound_append {b : Binds} {ts ts' : List Token} :
    Bound b (ts ++ ts') ↔ Bound b ts ∧ Bound b ts' := by
  unfold Bound
  constructor
  · intro h
    exact ⟨fun p hp => h p (List.mem_append_left _ hp), fun p hp =>
      h p (List.mem_append_right _ hp)⟩
  · intro h p hp
    rcases List.mem_append.mp hp with hp | hp
    · exact h.1 p hp
    · exact h.2 p hp

/-- A token that is no parameter. -/
def Token.plain : Token → Bool
  | .atom (.param _) => false
  | _ => true

theorem bound_cons {b : Binds} {t : Token} {ts : List Token} (ht : Token.plain t = true) :
    Bound b (t :: ts) ↔ Bound b ts := by
  unfold Bound
  constructor
  · intro h p hp; exact h p (List.mem_cons_of_mem _ hp)
  · intro h p hp
    rcases List.mem_cons.mp hp with rfl | hp
    · exact absurd ht (by simp [Token.plain])
    · exact h p hp

theorem bound_nil (b : Binds) : Bound b [] := fun _ hp => absurd hp List.not_mem_nil

theorem bound_joinTokens {b : Binds} {sep : Token} (hsep : Token.plain sep = true) :
    ∀ {parts : List (List Token)}, (∀ part ∈ parts, Bound b part) → Bound b (joinTokens sep parts)
  | [], _ => bound_nil b
  | [part], h => h part (List.mem_singleton.mpr rfl)
  | part :: q :: parts, h => by
      rw [joinTokens, bound_append, bound_cons hsep]
      · exact ⟨h part List.mem_cons_self,
          bound_joinTokens hsep fun r hr => h r (List.mem_cons_of_mem part hr)⟩
      · simp

theorem bound_parens {b : Binds} {ts : List Token} (h : Bound b ts) : Bound b (parens ts) := by
  rw [parens, bound_cons rfl, bound_append]
  exact ⟨h, (bound_cons rfl).mpr (bound_nil b)⟩

theorem bound_array {b : Binds} {parts : List (List Token)} (h : ∀ part ∈ parts, Bound b part) :
    Bound b (arrayTokens parts) := by
  rw [arrayTokens, bound_cons rfl, bound_append]
  exact ⟨bound_joinTokens rfl h, (bound_cons rfl).mpr (bound_nil b)⟩

/-- What a rendering does to the parameters: they stay numbered and are only added to. -/
structure Grows (b b' : Binds) : Prop where
  numbered : b.Numbered → b'.Numbered
  grows : b.values <+: b'.values

theorem Grows.refl (b : Binds) : Grows b b := ⟨id, List.prefix_refl _⟩

theorem Grows.trans {b₀ b₁ b₂ : Binds} (h : Grows b₀ b₁) (h' : Grows b₁ b₂) : Grows b₀ b₂ :=
  ⟨h'.numbered ∘ h.numbered, h.grows.trans h'.grows⟩

theorem Grows.push (b : Binds) (v : SurValue) : Grows b (b.push v).2 :=
  ⟨fun h => h.push v, ⟨_, rfl⟩⟩

/-- Rendered tokens, with the parameters before and after. -/
structure Steady (b b' : Binds) (toks : List Token) : Prop extends Grows b b' where
  bound : Bound b' toks

theorem Steady.param (b : Binds) (v : SurValue) :
    Steady b (b.push v).2 [.atom (.param (b.push v).1)] := by
  refine ⟨.push b v, fun p hp => ?_⟩
  have he : p = (b.push v).1 := by simpa using hp
  rw [he]
  simp [Binds.push]

/-- The parts of a list, one after the other. -/
structure SteadyAll (b b' : Binds) (parts : List (List Token)) : Prop extends Grows b b' where
  bound : ∀ part ∈ parts, Bound b' part

theorem SteadyAll.nil (b : Binds) : SteadyAll b b [] :=
  ⟨.refl b, fun _ h => absurd h List.not_mem_nil⟩

theorem SteadyAll.cons {b₀ b₁ b₂ : Binds} {t : List Token} {ts : List (List Token)}
    (h : Steady b₀ b₁ t) (h' : SteadyAll b₁ b₂ ts) : SteadyAll b₀ b₂ (t :: ts) := by
  refine ⟨h.toGrows.trans h'.toGrows, fun part hp => ?_⟩
  rcases List.mem_cons.mp hp with rfl | hp
  · exact h.bound.mono h'.grows
  · exact h'.bound part hp

/-- Two renderings around an operator. -/
theorem Steady.bin {b₀ b₁ b₂ : Binds} {t t' : List Token} {o : Op} (h : Steady b₀ b₁ t)
    (h' : Steady b₁ b₂ t') : Steady b₀ b₂ (t ++ .op o :: t') :=
  ⟨h.toGrows.trans h'.toGrows, bound_append.mpr
    ⟨h.bound.mono h'.grows, (bound_cons rfl).mpr h'.bound⟩⟩

/-- Around an operator in the other order. -/
theorem Steady.binSwap {b₀ b₁ b₂ : Binds} {t t' : List Token} {o : Op} (h : Steady b₀ b₁ t)
    (h' : Steady b₁ b₂ t') : Steady b₀ b₂ (t' ++ .op o :: t) :=
  ⟨h.toGrows.trans h'.toGrows, bound_append.mpr
    ⟨h'.bound, (bound_cons rfl).mpr (h.bound.mono h'.grows)⟩⟩

/-- Tokens without a parameter. -/
theorem Steady.plain {b : Binds} {toks : List Token} (h : toks.all Token.plain = true) :
    Steady b b toks := by
  refine ⟨.refl b, fun p hp => ?_⟩
  exact absurd (List.all_eq_true.mp h _ hp) (by simp [Token.plain])

/-- A negation. -/
theorem Steady.not {b b' : Binds} {t : List Token} (h : Steady b b' t) :
    Steady b b' (.pre :: parens t) :=
  ⟨h.toGrows, (bound_cons rfl).mpr (bound_parens h.bound)⟩

/-- A length. -/
theorem Steady.length {b b' : Binds} {t : List Token} (h : Steady b b' t) :
    Steady b b' (.opening .arrayLen :: (t ++ [.closing .paren])) := by
  refine ⟨h.toGrows, (bound_cons rfl).mpr (bound_append.mpr ⟨h.bound, ?_⟩)⟩
  exact (bound_cons rfl).mpr (bound_nil _)

/-- A target between two bounds: it is written twice. -/
theorem Steady.between {b b₁ b₂ b₃ : Binds} {t t₁ t₂ : List Token} (h : Steady b b₁ t)
    (hlo : Steady b₁ b₂ t₁) (hhi : Steady b₂ b₃ t₂) :
    Steady b b₃ (parens (t ++ .op .ge :: (t₁ ++ .op .and :: (t ++ .op .le :: t₂)))) := by
  have hbounds := hlo.toGrows.trans hhi.toGrows
  have htarget := h.bound.mono hbounds.grows
  refine ⟨h.toGrows.trans hbounds, bound_parens ?_⟩
  rw [bound_append, bound_cons rfl, bound_append, bound_cons rfl, bound_append, bound_cons rfl]
  exact ⟨htarget, hlo.bound.mono hhi.grows, htarget, hhi.bound⟩

/-- A target and what it starts with: it is written twice. -/
theorem Steady.startsWith {b b₁ b₂ : Binds} {t t₁ : List Token} (h : Steady b b₁ t)
    (hs : Steady b₁ b₂ t₁) :
    Steady b b₂ (parens (t ++ .op .isNot :: .atom .none :: .op .and :: .opening .startsWith ::
      (t ++ .comma :: (t₁ ++ [.closing .paren])))) := by
  have htarget := h.bound.mono hs.grows
  refine ⟨h.toGrows.trans hs.toGrows, bound_parens (bound_append.mpr ⟨htarget, ?_⟩)⟩
  rw [bound_cons rfl, bound_cons rfl, bound_cons rfl, bound_cons rfl, bound_append,
    bound_cons rfl, bound_append]
  exact ⟨htarget, hs.bound, (bound_cons rfl).mpr (bound_nil _)⟩

/-- Operands in a row. -/
theorem SteadyAll.chain {b b' : Binds} {parts : List (List Token)} {o : Op}
    (h : SteadyAll b b' parts) : Steady b b' (parens (joinTokens (.op o) parts)) :=
  ⟨h.toGrows, bound_parens (bound_joinTokens rfl h.bound)⟩

/-- Items of a list. -/
theorem SteadyAll.array {b b' : Binds} {parts : List (List Token)} (h : SteadyAll b b' parts) :
    Steady b b' (arrayTokens parts) :=
  ⟨h.toGrows, bound_array h.bound⟩

/-! ## Rendering is steady -/

section Rendering

variable [Sdk] {table : Table}

theorem bindItems_steady {storageTy : Option DbType} : ∀ {items : List Value} {b b' : Binds}
    {parts : List (List Token)}, bindItems b storageTy items = .ok (parts, b') →
    SteadyAll b b' parts
  | [], b, b', parts, h => by
      rw [bindItems] at h
      injection h with h; injection h with h1 h2; subst h1 h2
      exact .nil b
  | item :: items, b, b', parts, h => by
      rw [bindItems] at h
      obtain ⟨s, _, h₁⟩ := bind_eq_ok h
      obtain ⟨⟨rest, b₂⟩, hrest, h₂⟩ := bind_eq_ok h₁
      injection h₂ with h₂; injection h₂ with h1 h2; subst h1 h2
      exact .cons (.param b s) (bindItems_steady hrest)

theorem valueToBinds_steady {storageTy : Option DbType} {v : Value} {b b' : Binds}
    {toks : List Token} (h : valueToBinds b v storageTy = .ok (toks, b')) : Steady b b' toks := by
  unfold valueToBinds at h
  split at h
  · obtain ⟨⟨parts, b₁⟩, hparts, h₁⟩ := bind_eq_ok h
    injection h₁ with h₁; injection h₁ with h1 h2; subst h1 h2
    exact (bindItems_steady hparts).array
  · obtain ⟨s, _, h₁⟩ := bind_eq_ok h
    injection h₁ with h₁; injection h₁ with h1 h2; subst h1 h2
    exact .param b s

omit [Sdk] in
/-- A document path names no parameter. -/
theorem documentPath_plain {base : Expr} {rendered : Except Error (List Token × Binds)}
    {path : List String} : (documentPath table base rendered path).all Token.plain = true := by
  unfold documentPath
  split
  · rfl
  · split <;> rfl

omit [Sdk] in
theorem isNull_plain {base : Expr} {rendered : Except Error (List Token × Binds)}
    {path : List String} :
    List.all (documentPath table base rendered path ++ [.op .isOp, .atom .none]) Token.plain =
    true := by
  rw [List.all_append, documentPath_plain]
  rfl

theorem steady_cases : RenderCases table (fun _ _ b ts b' => Steady b b' ts)
    (fun _ _ b parts b' => SteadyAll b b' parts) where
  binaryOp hl hr := hl.bin hr
  and hall := hall.chain
  or hall := hall.chain
  not he := he.not
  isNullColumn := .plain rfl
  isNullPath _ := .plain isNull_plain
  isNull _ _ he := he.bin (.plain rfl)
  between he hlo hhi := he.between hlo hhi
  inList he hl := he.bin hl
  anyOp hl hr := hl.binSwap hr
  isSuperset hl hr := hl.bin hr
  intersects hl hr := hl.bin hr
  length he := he.length
  startsWith he hs := he.startsWith hs
  jsonExtract _ := .plain documentPath_plain
  boolColumn _ := .plain rfl
  column _ := .plain rfl
  value h := valueToBinds_steady h
  list hall := hall.array
  nil := .nil _
  cons he hes := .cons he hes

/-- **Rendering binds what it names and disturbs nothing.** -/
theorem renderWithStorage_steady (e : Expr) {b b' : Binds} {storageTy : Option DbType}
    {toks : List Token} (h : renderWithStorage table b e storageTy = .ok (toks, b')) :
    Steady b b' toks :=
  steady_cases.expr e h

/-! ## What later parameters leave alone -/

omit [Sdk] in
/-- **A bound predicate means the same** however many parameters follow. -/
theorem Bound.resolve {b later : Binds} {toks : List Token} (h : Bound b toks)
    (hp : b.values <+: later.values) :
    toks.map (Tok.map (resolve later)) = toks.map (Tok.map (resolve b)) := by
  refine List.map_congr_left fun t ht => ?_
  cases t with
  | atom a =>
      cases a with
      | param p =>
          obtain ⟨rest, hrest⟩ := hp
          have hmem := h p ht
          obtain ⟨v, hv⟩ := Option.ne_none_iff_exists'.mp fun hn =>
            AssocMap.lookup_eq_none.mp hn hmem
          show Tok.atom (ToastySurreal.resolve later (.param p)) =
              Tok.atom (ToastySurreal.resolve b (.param p))
          rw [ToastySurreal.resolve, ToastySurreal.resolve, ← hrest, AssocMap.lookup_append, hv]
          rfl
      | _ => rfl
  | _ => rfl

omit [Sdk] in
/-- A parameter's name starts with a `p`. -/
theorem Binds.Numbered.not_rid {b : Binds} (h : b.Numbered) : "rid" ∉ b.values.map Prod.fst := by
  rw [h]
  intro hmem
  obtain ⟨i, _, hi⟩ := List.mem_map.mp hmem
  have hhead := congrArg (fun s => s.toList.head?) hi
  simp at hhead

omit [Sdk] in
/-- The record id pushed after numbered parameters. -/
theorem recordId_pushNamed {b : Binds} (h : b.Numbered) {sql : Sql} {rid : RecordId} :
    Query.recordId ⟨sql, (b.pushNamed "rid" rid.value).values⟩ "rid" = some rid := by
  have hlookup : AssocMap.lookup "rid" (b.pushNamed "rid" rid.value).values = some rid.value := by
    rw [Binds.pushNamed, AssocMap.lookup_append, AssocMap.lookup_eq_none.mpr h.not_rid]
    rfl
  rw [Query.recordId, Query.param, hlookup]
  rfl

/-! ## Updates -/

theorem renderAssignment_grows {column : Column} {b b' : Binds} {assignment : Assignment}
    {clause : SetClause} (h : renderAssignment column b assignment = .ok (clause, b')) :
    Grows b b' := by
  cases assignment with
  | set v =>
      rw [renderAssignment] at h
      split at h
      · injection h with h; injection h with h1 h2; subst h2
        exact .refl b
      · obtain ⟨s, _, hok⟩ := bind_eq_ok h
        injection hok with hok; injection hok with h1 h2; subst h2
        exact .push b s
  | add v | subtract v | append v =>
      rw [renderAssignment] at h
      obtain ⟨s, _, hok⟩ := bind_eq_ok h
      injection hok with hok; injection hok with h1 h2; subst h2
      exact .push b s
  | other debug => exact absurd h (by simp [renderAssignment])

theorem renderAssignments_grows : ∀ {assignments : List (ColumnId × Assignment)} {b b' : Binds}
    {clauses : List SetClause}, renderAssignments table b assignments = .ok (clauses, b') →
    Grows b b'
  | [], b, b', clauses, h => by
      injection h with h; injection h with h1 h2; subst h2
      exact .refl b
  | (cid, assignment) :: rest, b, b', clauses, h => by
      rw [renderAssignments] at h
      obtain ⟨⟨clause, b₁⟩, h₁, hr⟩ := bind_eq_ok h
      obtain ⟨⟨clauses', b₂⟩, h₂, hok⟩ := bind_eq_ok hr
      injection hok with hok; injection hok with h1 h2; subst h2
      exact (renderAssignment_grows h₁).trans (renderAssignments_grows h₂)

theorem renderPredicates_steady : ∀ {exprs : List (Option Expr)} {b b' : Binds}
    {clauses : List (List Token)}, renderPredicates table b exprs = .ok (clauses, b') →
    SteadyAll b b' clauses
  | [], b, b', clauses, h => by
      injection h with h; injection h with h1 h2; subst h1 h2
      exact .nil b
  | none :: rest, b, b', clauses, h => by
      rw [renderPredicates] at h
      exact renderPredicates_steady h
  | some e :: rest, b, b', clauses, h => by
      rw [renderPredicates] at h
      obtain ⟨⟨t₁, b₁⟩, h₁, hr⟩ := bind_eq_ok h
      obtain ⟨⟨clauses', b₂⟩, h₂, hok⟩ := bind_eq_ok hr
      injection hok with hok; injection hok with h1 h2; subst h1 h2
      exact .cons (renderWithStorage_steady e h₁) (renderPredicates_steady h₂)

/-- An update has a key. -/
theorem updateQuery_addressed {op : UpdateByKey} {key : Value} {q : Query}
    (h : updateQuery table op key = .ok q) : ∃ rid, recordId table key = .ok rid := by
  unfold updateQuery at h
  obtain ⟨_, _, h₁⟩ := bind_eq_ok h
  obtain ⟨_, _, h₂⟩ := bind_eq_ok h₁
  obtain ⟨rid, hrid, _⟩ := bind_eq_ok h₂
  exact ⟨rid, hrid⟩

/-- **An update is about the record of its key.** -/
theorem updateQuery_recordId {op : UpdateByKey} {key : Value} {q : Query} {rid : RecordId}
    (hkey : recordId table key = .ok rid) (h : updateQuery table op key = .ok q) :
    ∃ sets clauses, q.sql = .update sets clauses op.returning.isSome ∧ q.recordId "rid" =
    some rid := by
  unfold updateQuery at h
  obtain ⟨⟨sets, b₁⟩, h₁, hr₁⟩ := bind_eq_ok h
  obtain ⟨⟨clauses, b₂⟩, h₂, hr₂⟩ := bind_eq_ok hr₁
  obtain ⟨rid', hrid, hok⟩ := bind_eq_ok hr₂
  rw [hkey] at hrid
  injection hrid with hrid; subst hrid
  injection hok with hok; subst hok
  have hgrows := (renderAssignments_grows h₁).trans (renderPredicates_steady h₂).toGrows
  exact ⟨sets, clauses, rfl, recordId_pushNamed (hgrows.numbered Binds.numbered_empty)⟩

/-- A deletion renders its clauses, binds its key and is about the record of it. -/
theorem deleteQuery_sent {op : DeleteByKey} {key : Value} {q : Query}
    (h : deleteQuery table op key = .ok q) :
    ∃ clauses binds rid, renderPredicates table .empty [op.filter, op.condition] =
    .ok (clauses, binds) ∧
      recordId table key = .ok rid ∧ q.sql = .delete clauses ∧ q.recordId "rid" = some rid ∧
      binds.values <+: q.binds := by
  unfold deleteQuery at h
  obtain ⟨⟨clauses, binds⟩, hclauses, h₁⟩ := bind_eq_ok h
  obtain ⟨rid, hrid, hok⟩ := bind_eq_ok h₁
  injection hok with hok; subst hok
  have hnum := (renderPredicates_steady hclauses).toGrows.numbered Binds.numbered_empty
  exact ⟨clauses, binds, rid, hclauses, hrid, rfl, recordId_pushNamed hnum, ⟨_, rfl⟩⟩

/-- **An upsert is about the record of its row.** -/
theorem upsertQuery_recordId {insert : Insert} {clause : UpsertClause} {row : Row} {rid : RecordId}
    {content : Object} {returning : Bool} {q : Query}
    (h : upsertQuery table insert clause row rid content returning = .ok q) :
    ∃ body returnAfter, q.sql = .upsert body returnAfter ∧ q.recordId "rid" = some rid := by
  unfold upsertQuery at h
  obtain ⟨⟨created, b₁⟩, _, hr₁⟩ := bind_eq_ok h
  obtain ⟨⟨shared, b₂⟩, _, hr₂⟩ := bind_eq_ok hr₁
  dsimp only at hr₂
  split at hr₂
  · injection hr₂ with hr₂; subst hr₂
    exact ⟨_, _, rfl, rfl⟩
  · injection hr₂ with hr₂; subst hr₂
    exact ⟨_, _, rfl, rfl⟩

end Rendering

end ToastySurreal
