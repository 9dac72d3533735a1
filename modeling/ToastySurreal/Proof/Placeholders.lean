import ToastySurreal.Proof.Layout
import ToastySurreal.Proof.Templates

/-!
# Rendering writes the layout

`Writes` relates a rendering to its layout: the text read back has a hole wherever the
layout has a value, what was bound are the layout's literals in order, and the names in
the holes are bound to the values in their places just if the strays come first among
the values bound. Each way of putting texts together keeps that, so the renderer does.
-/

namespace ToastySurreal

open Results
open Holes (Piece Marks chars Ended)
open Precedence (Tok)

/-! ## Parameters by number -/

/-- The numbered parameters of `later` hold `vals`. -/
def Numbers (later : List (String × SurValue)) (vals : List SurValue) : Prop :=
  ∀ i v, (paramName i, v) ∈ later ↔ vals[i]? = some v

theorem Binds.Numbered.get {b : Binds} (h : b.Numbered) {i : Nat} {c : String × SurValue}
    (hc : b.values[i]? = some c) : c.1 = paramName i := by
  have hi : i < b.values.length := by
    by_contra hge
    rw [List.getElem?_eq_none (by omega)] at hc
    exact absurd hc (by simp)
  have hname : (b.values.map Prod.fst)[i]? = some (paramName i) := by
    unfold Binds.Numbered at h
    rw [h]
    simp [hi, paramName]
  simpa [hc] using hname

/-- Numbered parameters hold their values. -/
theorem Binds.Numbered.numbers {b : Binds} (h : b.Numbered) :
    Numbers b.values (b.values.map Prod.snd) := by
  intro i v
  constructor
  · intro hmem
    obtain ⟨j, hj⟩ := List.mem_iff_getElem?.mp hmem
    have hij : i = j := paramName_inj (h.get hj)
    subst hij
    simp [hj]
  · intro hv
    rw [List.getElem?_map, Option.map_eq_some_iff] at hv
    obtain ⟨c, hc, rfl⟩ := hv
    rw [← h.get hc]
    exact List.mem_of_getElem? hc

/-- A parameter under another name changes nothing about the numbered ones. -/
theorem Numbers.cons {later : List (String × SurValue)} {vals : List SurValue} {name : String}
    (h : Numbers later vals) (hname : ∀ i, name ≠ paramName i) (v : SurValue) :
    Numbers ((name, v) :: later) vals := by
  intro i w
  rw [← h i w, List.mem_cons]
  constructor
  · intro hmem
    rcases hmem with he | hmem
    · injection he with he _
      exact absurd he.symm (hname i)
    · exact hmem
  · exact .inr

theorem Numbers.perm {later later' : List (String × SurValue)} {vals : List SurValue}
    (h : Numbers later vals) (hp : later.Perm later') : Numbers later' vals :=
  fun i v => (hp.mem_iff).symm.trans (h i v)

/-- Parameters are among later ones just if their values come first. -/
theorem Numbers.prefix_iff {later : List (String × SurValue)} {vals : List SurValue}
    (h : Numbers later vals) {b : Binds} (hb : b.Numbered) :
    (∀ c ∈ b.values, c ∈ later) ↔ b.values.map Prod.snd <+: vals := by
  rw [List.prefix_iff_getElem?]
  constructor
  · intro hall i hi
    rw [List.length_map] at hi
    have hmem := hall _ (List.getElem_mem hi)
    have hname := hb.get (List.getElem?_eq_getElem hi)
    rw [List.getElem_map]
    refine (h i _).mp ?_
    rw [← hname]
    exact hmem
  · intro hpre c hc
    obtain ⟨i, hi⟩ := List.mem_iff_getElem?.mp hc
    have hlt : i < (b.values.map Prod.snd).length := by
      rw [List.length_map]
      exact (List.getElem?_eq_some_iff.mp hi).1
    have hv := hpre i hlt
    have hname := hb.get hi
    have hget : (b.values.map Prod.snd)[i] = c.2 := by
      have := List.getElem?_eq_getElem hlt
      rw [List.getElem?_map, hi] at this
      simpa using this.symm
    rw [hget] at hv
    have := (h i c.2).mpr hv
    rw [← hname] at this
    exact this

/-! ## What was written -/

abbrev Cells := List (Piece (String × SurValue))

/-- A text is read as its cells, names with what belongs there, and the names are bound to
that just if the strays come first among the bound values. -/
structure Spells (vals : List SurValue) (s : String) (cells : Cells)
    (strays : List (List SurValue)) : Prop where
  read : sqlRead s = cells.map (Piece.map Prod.fst)
  closed : Holes.Closed sqlMarks s.toList
  agrees : ∀ later vals', Numbers later vals' → vals <+: vals' →
    ((∀ c, .hole c ∈ cells → c ∈ later) ↔ ∀ stray ∈ strays, stray <+: vals')

theorem Spells.later {vals vals' : List SurValue} {s : String} {cells : Cells}
    {strays : List (List SurValue)} (h : Spells vals s cells strays) (hp : vals <+: vals') :
    Spells vals' s cells strays :=
  ⟨h.read, h.closed, fun later vals'' hn hp' => h.agrees later vals'' hn (hp.trans hp')⟩

theorem hole_mem_chars {V : Type} {v : V} {cs : List Char} : ¬ (.hole v : Piece V) ∈ chars cs := by
  simp [chars]

theorem map_chars {V W : Type} (f : V → W) (cs : List Char) :
    (chars cs).map (Piece.map f) = chars cs := by
  simp [chars, Piece.map]

theorem Spells.fixed {vals : List SurValue} {s : String} (h : Fixed s) :
    Spells vals s (chars s.toList) [] := by
  refine ⟨?_, h.closed, fun later vals' _ _ => ?_⟩
  · rw [map_chars]; exact h.read
  · simp [hole_mem_chars]

theorem Spells.append {vals : List SurValue} {s t : String} {cells cells' : Cells}
    {strays strays' : List (List SurValue)} (h : Spells vals s cells strays)
    (h' : Spells vals t cells' strays') (hsep : Ended sqlMarks t.toList) :
    Spells vals (s ++ t) (cells ++ cells') (strays ++ strays') := by
  refine ⟨?_, ?_, fun later vals' hn hp => ?_⟩
  · rw [sqlRead, String.toList_append, Holes.read_append h.closed hsep, List.map_append, ← h.read,
      ← h'.read]
    rfl
  · rw [String.toList_append]
    exact h.closed.append h'.closed hsep
  · have h₁ := h.agrees later vals' hn hp
    have h₂ := h'.agrees later vals' hn hp
    simp only [List.mem_append, or_imp, forall_and, h₁, h₂]

/-- A fixed text may be followed by anything. -/
theorem Spells.after {vals : List SurValue} {s t : String} {cells : Cells}
    {strays : List (List SurValue)}
    (hs : Fixed s) (h : Spells vals t cells strays) : Spells vals (s ++ t)
    (chars s.toList ++ cells) strays := by
  refine ⟨?_, ?_, fun later vals' hn hp => ?_⟩
  · rw [sqlRead, String.toList_append, Holes.Plain.read_append hs, List.map_append, map_chars,
      ← h.read]
    rfl
  · rw [String.toList_append]
    exact hs.closed_append h.closed
  · have h₁ := h.agrees later vals' hn hp
    simp only [List.mem_append, hole_mem_chars, false_or, h₁]

theorem Spells.param {vals : List SurValue} {i : Nat} {v : SurValue} (hv : vals[i]? = some v) :
    Spells vals ("$" ++ paramName i) [.hole (paramName i, v)] [] := by
  have hread := Holes.read_hole (paramName_word i)
  have hlist : ("$" ++ paramName i).toList = sqlMarks.sigil :: (paramName i).toList := by
    rw [String.toList_append]; rfl
  refine ⟨?_, ?_, fun later vals' hn hp => ?_⟩
  · rw [sqlRead, hlist, hread.1, String.ofList_toList]
    rfl
  · rw [hlist]
    exact hread.2
  · have hmem : (paramName i, v) ∈ later := by
      refine (hn i v).mpr ?_
      obtain ⟨rest, rfl⟩ := hp
      rw [List.getElem?_append_left, hv]
      exact (List.getElem?_eq_some_iff.mp hv).1
    simp [hmem]

/-- What a rendering wrote and bound is what its layout says. -/
structure Writes (b b' : Binds) (s : String) (l : Layout) : Prop extends Grows b b' where
  values : b'.values.map Prod.snd = b.values.map Prod.snd ++ l.literals
  spells : ∃ cells, Spells (b'.values.map Prod.snd) s cells l.strays ∧
    cells.map (Piece.map Prod.snd) = l.places ∧ ∀ c ∈ b'.values, c ∈ b.values ∨ .hole c ∈ cells


section Writing

variable {b b' b₀ b₁ b₂ : Binds} {s t : String} {l l' : Layout}

theorem Grows.vals (h : Grows b b') : b.values.map Prod.snd <+: b'.values.map Prod.snd :=
  h.grows.map _

theorem Layout.append_assoc (l l' l'' : Layout) : l ++ l' ++ l'' = l ++ (l' ++ l'') :=
  Layout.ext (List.append_assoc ..) (List.append_assoc ..) (List.append_assoc ..)

theorem Writes.fixed (b : Binds) (h : Fixed s) : Writes b b s (.text s) where
  toGrows := .refl b
  values := (List.append_nil _).symm
  spells := ⟨_, .fixed h, map_chars _ _, fun _ hc => .inl hc⟩

theorem Writes.push (b : Binds) (v : SurValue) :
    Writes b (b.push v).2 ("$" ++ (b.push v).1) (.value v) where
  toGrows := .push b v
  values := by simp [Binds.push, Layout.value]
  spells := by
    refine ⟨[.hole ((b.push v).1, v)], .param ?_, rfl, fun c hc => ?_⟩
    · simp [Binds.push]
    · rcases List.mem_append.mp hc with hc | hc
      · exact .inl hc
      · rw [List.mem_singleton.mp hc]
        exact .inr List.mem_cons_self

/-- **One text after another.** -/
theorem Writes.append (h : Writes b b₁ s l) (h' : Writes b₁ b₂ t l')
    (hsep : Ended sqlMarks t.toList) : Writes b b₂ (s ++ t) (l ++ l') where
  toGrows := h.toGrows.trans h'.toGrows
  values := by
    rw [h'.values, h.values, List.append_assoc]
    rfl
  spells := by
    obtain ⟨cells, hs, hplaces, hcovers⟩ := h.spells
    obtain ⟨cells', hs', hplaces', hcovers'⟩ := h'.spells
    refine ⟨cells ++ cells', (hs.later h'.vals).append hs' hsep, ?_, fun c hc => ?_⟩
    · rw [List.map_append, hplaces, hplaces']; rfl
    · rcases hcovers' c hc with hc | hc
      · rcases hcovers c hc with hc | hc
        · exact .inl hc
        · exact .inr (List.mem_append_left _ hc)
      · exact .inr (List.mem_append_right _ hc)

theorem Writes.after (hs : Fixed s) (h : Writes b b' t l) :
    Writes b b' (s ++ t) (.text s ++ l) where
  toGrows := h.toGrows
  values := h.values
  spells := by
    obtain ⟨cells, hspells, hplaces, hcovers⟩ := h.spells
    refine ⟨_, hspells.after hs, ?_, fun c hc => (hcovers c hc).imp_right (List.mem_append_right _)⟩
    rw [List.map_append, map_chars, hplaces]
    rfl

/-- Two texts around an operator. -/
theorem Writes.bin (o : Op) (h : Writes b b₁ s l) (h' : Writes b₁ b₂ t l') :
    Writes b b₂ (s ++ (o.text ++ t)) (l ++ .text o.text ++ l') := by
  rw [Layout.append_assoc]
  exact h.append (h'.after (fixed_op o)) ((breaks_op o).append t)

/-- Around an operator in the other order. -/
theorem Writes.swapped (o : Op) (h : Writes b b₁ s l) (h' : Writes b₁ b₂ t l') :
    Writes b b₂ (t ++ (o.text ++ s)) (.swapped o l l') where
  toGrows := h.toGrows.trans h'.toGrows
  values := by
    rw [h'.values, h.values, List.append_assoc]
    rfl
  spells := by
    obtain ⟨cells, hs, hplaces, hcovers⟩ := h.spells
    obtain ⟨cells', hs', hplaces', hcovers'⟩ := h'.spells
    have hright := (hs.later h'.vals).after (fixed_op o)
    have hall := hs'.append hright ((breaks_op o).append s)
    refine ⟨_, ⟨hall.read, hall.closed, fun later vals hn hp => ?_⟩, ?_, fun c hc => ?_⟩
    · rw [hall.agrees later vals hn hp]
      simp only [Layout.swapped, List.mem_append, or_comm]
    · rw [List.map_append, List.map_append, map_chars, hplaces, hplaces', ← List.append_assoc]
      rfl
    · rcases hcovers' c hc with hc | hc
      · rcases hcovers c hc with hc | hc
        · exact .inl hc
        · exact .inr (List.mem_append_right _ (List.mem_append_right _ hc))
      · exact .inr (List.mem_append_left _ hc)

/-- A text that was written before, once more. -/
theorem Writes.again (h : Writes b b₁ s l) (hg : Grows b₁ b₂) : Writes b₂ b₂ s l.again where
  toGrows := .refl b₂
  values := (List.append_nil _).symm
  spells := by
    obtain ⟨cells, hs, hplaces, _⟩ := h.spells
    exact ⟨cells, hs.later hg.vals, hplaces, fun _ hc => .inl hc⟩

/-- **A text whose parameters are dropped** says what its layout does just if what they
held comes first among the values bound. -/
theorem Writes.dropped (b : Binds) (h : Writes .empty b₀ s l) : Writes b b s l.dropped where
  toGrows := .refl b
  values := (List.append_nil _).symm
  spells := by
    obtain ⟨cells, hs, hplaces, hcovers⟩ := h.spells
    have hnum : b₀.Numbered := h.numbered Binds.numbered_empty
    have hvals : b₀.values.map Prod.snd = l.literals := h.values.trans (List.nil_append _)
    refine ⟨cells, ⟨hs.read, hs.closed, fun later vals hn _ => ?_⟩, hplaces, fun _ hc => .inl hc⟩
    constructor
    · intro hall stray hstray
      have hfirst : b₀.values.map Prod.snd <+: vals := by
        refine (hn.prefix_iff hnum).mp fun c hc => hall c ?_
        exact (hcovers c hc).resolve_left List.not_mem_nil
      rcases List.mem_cons.mp hstray with rfl | hstray
      · rw [← hvals]; exact hfirst
      · exact (hs.agrees later vals hn hfirst).mp hall stray hstray
    · intro hall
      have hfirst := hall l.literals List.mem_cons_self
      rw [← hvals] at hfirst
      exact (hs.agrees later vals hn hfirst).mpr fun stray hstray =>
        hall stray (List.mem_cons_of_mem _ hstray)

/-- A text between two that bind nothing. -/
theorem Writes.enclosed {before after : String} (h : Writes b b' s l) (hbefore : Fixed before)
    (hafter : Fixed after) (hsep : Breaks after) :
    Writes b b' (before ++ (s ++ after)) (.enclosed before l after) := by
  rw [Layout.enclosed, Layout.append_assoc]
  exact (h.append (.fixed b' hafter) hsep.1).after hbefore

theorem join_cons_cons (sep s t : String) (rest : List String) :
    join sep (s :: t :: rest) = s ++ sep ++ join sep (t :: rest) := rfl

/-- Texts, one after the other. -/
inductive WritesAll : Binds → Binds → List String → List Layout → Prop where
  | nil (b : Binds) : WritesAll b b [] []
  | cons {b b₁ b₂ : Binds} {s : String} {l : Layout} {ss : List String} {ls : List Layout}
      (h : Writes b b₁ s l) (hs : WritesAll b₁ b₂ ss ls) : WritesAll b b₂ (s :: ss) (l :: ls)

/-- **Texts with one between each two.** -/
theorem WritesAll.joined {sep : String} (hfixed : Fixed sep) (hsep : Breaks sep) {ss : List String}
    {ls : List Layout} {b b' : Binds} (h : WritesAll b b' ss ls) :
    Writes b b' (join sep ss) (.join sep ls) := by
  induction h with
  | nil b =>
      have hnil : Fixed "" := by decide
      exact .fixed b hnil
  | cons h hs ih =>
      cases hs with
      | nil => exact h
      | cons h' hs' =>
          rw [join_cons_cons, String.append_assoc, Layout.join, Layout.append_assoc]
          exact h.append (ih.after hfixed) (hsep.append _)

end Writing

/-! ## Texts of tokens -/

theorem foldl_text (ss : List String) : ∀ s :
    String, ss.foldl (· ++ ·) s = s ++ ss.foldl (· ++ ·) "" := by
  induction ss with
  | nil => intro s; simp
  | cons t ss ih =>
      intro s
      rw [List.foldl_cons, ih, List.foldl_cons, ih ("" ++ t), String.append_assoc,
        String.empty_append]

theorem tokensText_cons (t : Token) (ts : List Token) :
    tokensText (t :: ts) = tokenText t ++ tokensText ts := by
  rw [tokensText, List.map_cons, List.foldl_cons, foldl_text, String.empty_append]
  rfl

theorem tokensText_append (ts ts' : List Token) :
    tokensText (ts ++ ts') = tokensText ts ++ tokensText ts' := by
  rw [tokensText, List.map_append, List.foldl_append, foldl_text]
  rfl

theorem tokensText_single (t : Token) : tokensText [t] = tokenText t := String.empty_append

theorem tokensText_join (sep : Token) : ∀ parts : List (List Token),
    tokensText (joinTokens sep parts) = join (tokenText sep) (parts.map tokensText)
  | [] => rfl
  | [part] => rfl
  | part :: q :: parts => by
      have ih := tokensText_join sep (q :: parts)
      rw [joinTokens, tokensText_append, tokensText_cons, ih]
      · exact (String.append_assoc ..).symm
      · simp

theorem tokenText_reference (r : ColumnRef) : tokenText (.atom (.ref r [])) = r.text :=
  String.append_empty

theorem tokensText_parens (ts : List Token) :
    tokensText (parens ts) = "(" ++ (tokensText ts ++ ")") := by
  rw [parens, tokensText_cons, tokensText_append, tokensText_single]
  rfl

theorem tokensText_array (parts : List (List Token)) :
    tokensText (arrayTokens parts) = "[" ++ (join ", " (parts.map tokensText) ++ "]") := by
  rw [arrayTokens, tokensText_cons, tokensText_append, tokensText_single, tokensText_join]
  rfl


theorem pathText_cons (segment : String) (path : List String) :
    pathText (segment :: path) = "." ++ (escapeIdent segment ++ pathText path) := by
  have hfold : ∀ (path : List String) (s : String),
      path.foldl (fun text segment => text ++ "." ++ escapeIdent segment) s = s ++
      pathText path := by
    intro path
    induction path with
    | nil => intro s; exact String.append_empty.symm
    | cons segment path ih =>
        intro s
        rw [pathText, List.foldl_cons, List.foldl_cons, ih, ih, String.empty_append,
          String.append_assoc, String.append_assoc, String.append_assoc]
  rw [pathText, List.foldl_cons, hfold, String.empty_append, String.append_assoc]

theorem fixed_pathText : ∀ path : List String, Fixed (pathText path)
  | [] => by decide
  | segment :: path => by
      have hdot : Fixed "." := by decide
      rw [pathText_cons]
      exact hdot.append ((fixed_escapeIdent segment).append (fixed_pathText path))

theorem ended_pathText (path : List String) : Ended sqlMarks (pathText path).toList := by
  cases path with
  | nil => decide
  | cons segment path =>
      have hdot : Breaks "." := by decide
      rw [pathText_cons]
      exact hdot.append _

/-! ## Rendering -/

section Rendering

variable [Sdk] {table : Table}

theorem writes_value {b : Binds} {v : Value} {storageTy : Option DbType} {s : SurValue}
    (h : toSurrealWithStorage v storageTy = .ok s) :
    Writes b (b.push s).2 (tokensText [.atom (.param b.nextName)])
    (.value (literal v storageTy)) := by
  rw [tokensText_single, literal_ok h]
  exact .push b s

theorem bindItems_writes {storageTy : Option DbType} : ∀ {items : List Value} {b b' : Binds}
    {parts : List (List Token)}, bindItems b storageTy items = .ok (parts, b') →
    WritesAll b b' (parts.map tokensText) (items.map fun item => .value (literal item storageTy))
  | [], b, b', parts, h => by
      rw [bindItems] at h
      injection h with h; injection h with h1 h2; subst h1 h2
      exact .nil b
  | item :: items, b, b', parts, h => by
      rw [bindItems] at h
      obtain ⟨s, hs, h₁⟩ := bind_eq_ok h
      obtain ⟨⟨rest, b₂⟩, hrest, h₂⟩ := bind_eq_ok h₁
      injection h₂ with h₂; injection h₂ with h1 h2; subst h1 h2
      exact .cons (writes_value hs) (bindItems_writes hrest)

omit [Sdk] in
/-- An array of texts. -/
theorem WritesAll.array {b b' : Binds} {parts : List (List Token)} {ls : List Layout}
    (h : WritesAll b b' (parts.map tokensText) ls) :
    Writes b b' (tokensText (arrayTokens parts)) (.enclosed "[" (.join ", " ls) "]") := by
  rw [tokensText_array]
  exact (h.joined (by decide) (by decide)).enclosed (by decide) (by decide) (by decide)

omit [Sdk] in
theorem Writes.parens {b b' : Binds} {ts : List Token} {l : Layout}
    (h : Writes b b' (tokensText ts) l) :
    Writes b b' (tokensText (parens ts)) (.enclosed "(" l ")") := by
  rw [tokensText_parens]
  exact h.enclosed (by decide) (by decide) (by decide)

omit [Sdk] in
/-- A chain of one operator in parentheses. -/
theorem WritesAll.chain {b b' : Binds} {parts : List (List Token)} {ls : List Layout} (o : Op)
    (h : WritesAll b b' (parts.map tokensText) ls) :
    Writes b b' (tokensText (parens (joinTokens (.op o) parts)))
    (.enclosed "(" (.join o.text ls) ")") := by
  refine Writes.parens ?_
  rw [tokensText_join]
  exact h.joined (fixed_op o) (breaks_op o)

omit [Sdk] in
theorem Writes.op {b b₁ b₂ : Binds} {ts ts' : List Token} {l l' : Layout} (o : Op)
    (h : Writes b b₁ (tokensText ts) l) (h' : Writes b₁ b₂ (tokensText ts') l') :
    Writes b b₂ (tokensText (ts ++ .op o :: ts')) (l ++ .text o.text ++ l') := by
  rw [tokensText_append, tokensText_cons]
  exact h.bin o h'

theorem valueToBinds_writes {storageTy : Option DbType} {v : Value} {b b' : Binds}
    {toks : List Token} (h : valueToBinds b v storageTy = .ok (toks, b')) :
    Writes b b' (tokensText toks) (valueLayout v storageTy) := by
  unfold valueToBinds at h
  split at h
  · obtain ⟨⟨parts, b₁⟩, hparts, hok⟩ := bind_eq_ok h
    injection hok with hok; injection hok with h1 h2; subst h1 h2
    exact (bindItems_writes hparts).array
  · rename_i hlist
    obtain ⟨s, hs, hok⟩ := bind_eq_ok h
    injection hok with hok; injection hok with h1 h2; subst h1 h2
    rw [valueLayout]
    · exact writes_value hs
    · exact hlist

/-- A path, given what its base would write on its own. -/
theorem documentPath_writes {base : Expr} {path : List String} (b : Binds)
    (h : ∀ {b₀ : Binds} {toks : List Token}, renderWithStorage table .empty base none =
      .ok (toks, b₀) → Writes .empty b₀ (tokensText toks) (layout table base none)) :
    Writes b b (tokensText
      (documentPath table base (renderWithStorage table .empty base none) path))
      (pathLayout table base path (layout table base none)) := by
  unfold documentPath
  split
  · rw [tokensText_single]
    exact .fixed b ((fixed_columnRef _).append (fixed_pathText path))
  · rename_i hbase
    rw [pathLayout]
    · cases hr : renderWithStorage table .empty base none with
      | error e =>
          rw [tokensText_single]
          have hid : Fixed "id" := by decide
          exact .fixed b (hid.append (fixed_pathText path))
      | ok rendered =>
          rw [tokensText_single]
          exact ((h hr).dropped b).append (.fixed b (fixed_pathText path)) (ended_pathText path)
    · exact hbase

omit [Sdk] in
theorem tokensText_startsWith (ts ts' : List Token) :
    tokensText (parens (ts ++ .op .isNot :: .atom .none :: .op .and :: .opening .startsWith ::
        (ts ++ .comma :: (ts' ++ [.closing .paren])))) =
      "(" ++ (tokensText ts ++ (" IS NOT NONE AND string::starts_with(" ++ tokensText ts) ++
        (", " ++ tokensText ts') ++ "))") := by
  have hmiddle : " IS NOT " ++ ("NONE" ++ (" AND " ++ "string::starts_with(")) =
      " IS NOT NONE AND string::starts_with(" := by decide
  have hend : ")" ++ ")" = "))" := by decide
  rw [tokensText_parens, ← hmiddle, ← hend]
  simp only [tokensText_append, tokensText_cons, String.append_assoc]
  rfl

theorem writes_cases : RenderCases table
    (fun e st b ts b' => Writes b b' (tokensText ts) (layout table e st))
    (fun es st b parts b' => WritesAll b b' (parts.map tokensText) (layouts table es st)) where
  binaryOp hl hr := hl.op _ hr
  and hall := hall.chain .and
  or hall := hall.chain .or
  not he := by
    rw [tokensText_cons, tokensText_parens, ← String.append_assoc]
    exact he.enclosed (by decide) (by decide) (by decide)
  isNullColumn := by
    intro column st b
    rw [tokensText_cons, tokenText_reference]
    exact .fixed _ ((fixed_columnRef _).append (show Fixed " IS NONE" by decide))
  isNullPath hbase := by
    have hnone : Fixed " IS NONE" := by decide
    rw [tokensText_append]
    exact (documentPath_writes _ hbase).append (.fixed _ hnone) (by decide)
  isNull hcolumn hpath he := by
    have hnone : Fixed " IS NONE" := by decide
    rw [tokensText_append, layout]
    · exact he.append (.fixed _ hnone) (by decide)
    · exact hcolumn
    · exact hpath
  between he hlo hhi := by
    have hlow := he.op .ge hlo
    have hhigh := (he.again hlo.toGrows).op .le hhi
    -- the target is written twice
    have hboth := (hlow.op .and hhigh).parens
    simp only [List.append_assoc, List.cons_append, Layout.append_assoc] at hboth
    rw [layout]
    simp only [Layout.append_assoc]
    exact hboth
  inList he hl := he.op _ hl
  anyOp hl hr := by
    rw [tokensText_append, tokensText_cons]
    exact hl.swapped .contains hr
  isSuperset hl hr := hl.op _ hr
  intersects hl hr := hl.op _ hr
  length he := by
    rw [tokensText_cons, tokensText_append, tokensText_single]
    exact he.enclosed (by decide) (by decide) (by decide)
  startsWith {_ _ _ _ b₁ _ _ _} he hs := by
    have hmiddle : Fixed " IS NOT NONE AND string::starts_with(" := by decide
    have hcomma : Fixed ", " := by decide
    have hsep : Breaks " IS NOT NONE AND string::starts_with(" := by decide
    have hsep' : Breaks ", " := by decide
    have htarget := he.append ((he.again (.refl b₁)).after hmiddle) (hsep.append _)
    have hall := (htarget.append (hs.after hcomma) (hsep'.append _)).enclosed
      (show Fixed "(" by decide) (show Fixed "))" by decide) (by decide)
    rw [layout, tokensText_startsWith]
    simp only [Layout.append_assoc, String.append_assoc] at hall ⊢
    exact hall
  jsonExtract hbase := documentPath_writes _ hbase
  boolColumn {column _ _} hbool := by
    have hcolumn := fixed_columnRef (columnRef table column)
    rw [layout, if_pos hbool, tokensText_cons, tokenText_reference]
    exact .fixed _ (hcolumn.append (show Fixed " = true" by decide))
  column hbool := by
    rw [layout, if_neg hbool, tokensText_single, tokenText_reference]
    exact .fixed _ (fixed_columnRef _)
  value h := valueToBinds_writes h
  list hall := hall.array
  nil := .nil _
  cons he hes := .cons he hes

/-- **Rendering writes the layout.** -/
theorem renderWithStorage_writes (e : Expr) {b b' : Binds} {storageTy : Option DbType}
    {toks : List Token} (h : renderWithStorage table b e storageTy = .ok (toks, b')) :
    Writes b b' (tokensText toks) (layout table e storageTy) :=
  writes_cases.expr e h

end Rendering

end ToastySurreal
