import Mathlib.Data.List.Basic

/-!
# Reading quoted names and texts

A language of words, symbols and two kinds of quotations, names and texts. Inside a
quotation an escape character stands for what comes after it, and the first mark that is
not escaped is the end. The reader goes through a text once; a part that leaves it where
it started is read the same whatever comes next. `quotation_escaped` says how to write a
quotation that is read back, `clean_of_quotation` what goes wrong where marks are doubled
instead of escaped.
-/

namespace Lexing

inductive Quotation where
  | name
  | text
  deriving DecidableEq

inductive Lexeme where
  | word (s : String)
  | quoted (q : Quotation) (s : String)
  | symbol (c : Char)
  deriving DecidableEq

/-- What a language is written with. -/
structure Marks where
  mark : Quotation → Char
  escape : Char
  word : Char → Bool
  space : Char → Bool
  /-- What an escaped character stands for. -/
  unescape : Quotation → Char → List Char
  differ : mark .name ≠ mark .text
  escape_ne : ∀ q, escape ≠ mark q
  unescape_mark : ∀ q, unescape q (mark q) = [mark q]
  unescape_escape : ∀ q, unescape q escape = [escape]

/-- Where the reader is, with what it has read of a word or a quotation. -/
inductive Mode where
  | plain
  | word (read : List Char)
  | quoted (q : Quotation) (read : List Char)
  | escaped (q : Quotation) (read : List Char)
  deriving DecidableEq

variable (m : Marks)

/-- One character outside of words and quotations. -/
def plainStep (c : Char) : List Lexeme × Mode :=
  if c = m.mark .name then ([], .quoted .name [])
  else if c = m.mark .text then ([], .quoted .text [])
  else if m.word c then ([], .word [c])
  else if m.space c then ([], .plain)
  else ([.symbol c], .plain)

def step : Mode → Char → List Lexeme × Mode
  | .plain, c => plainStep m c
  | .word read, c =>
      if m.word c then ([], .word (read ++ [c]))
      else (.word (String.ofList read) :: (plainStep m c).1, (plainStep m c).2)
  | .quoted q read, c =>
      if c = m.mark q then ([.quoted q (String.ofList read)], .plain)
      else if c = m.escape then ([], .escaped q read)
      else ([], .quoted q (read ++ [c]))
  | .escaped q read, c => ([], .quoted q (read ++ m.unescape q c))

/-- The lexemes a text leaves behind, and where the reader is after it. -/
def scan : Mode → List Char → List Lexeme × Mode
  | mode, [] => ([], mode)
  | mode, c :: cs =>
      let next := step m mode c
      let rest := scan next.2 cs
      (next.1 ++ rest.1, rest.2)

/-- What the end of the text makes of a mode: a quotation must be over by then. -/
def finish : Mode → Option (List Lexeme)
  | .plain => some []
  | .word read => some [.word (String.ofList read)]
  | .quoted _ _ | .escaped _ _ => none

/-- The lexemes of a text. -/
def lex (text : List Char) : Option (List Lexeme) :=
  (finish (scan m .plain text).2).map ((scan m .plain text).1 ++ ·)

/-- From the middle of a quotation: what is quoted, and what comes after the end. -/
def quotation (q : Quotation) : List Char → Option (List Char × List Char)
  | [] => none
  | c :: cs =>
      if c = m.mark q then some ([], cs)
      else if c = m.escape then
        match cs with
        | [] => none
        | d :: ds => (quotation q ds).map fun r => (m.unescape q d ++ r.1, r.2)
      else (quotation q cs).map fun r => (c :: r.1, r.2)

variable {m}

/-! ## Reading in parts -/

theorem scan_append : ∀ (s t : List Char) (mode : Mode),
    scan m mode (s ++ t) =
      ((scan m mode s).1 ++ (scan m (scan m mode s).2 t).1, (scan m (scan m mode s).2 t).2)
  | [], t, mode => by simp [scan]
  | c :: s, t, mode => by simp [scan, scan_append s t]

/-- A text that is whole lexemes, whatever comes next. -/
def Whole (m : Marks) (s : List Char) (ls : List Lexeme) : Prop := scan m .plain s = (ls, .plain)

instance (s : List Char) (ls : List Lexeme) : Decidable (Whole m s ls) :=
  inferInstanceAs (Decidable (_ = _))

theorem Whole.nil : Whole m [] [] := rfl

theorem Whole.append {s t : List Char} {ls ks : List Lexeme} (hs : Whole m s ls)
    (ht : Whole m t ks) : Whole m (s ++ t) (ls ++ ks) := by
  unfold Whole at hs ht ⊢
  rw [scan_append, hs, ht]

/-- **Whole lexemes are read off the front of a text.** -/
theorem Whole.lex_append {s : List Char} {ls : List Lexeme} (hs : Whole m s ls) (t : List Char) :
    lex m (s ++ t) = (lex m t).map (ls ++ ·) := by
  unfold Whole at hs
  rw [lex, scan_append, hs, lex]
  cases finish (scan m .plain t).2 with
  | none => rfl
  | some last => simp

theorem Whole.lex_append_iff {s : List Char} {ls : List Lexeme} (hs : Whole m s ls) {t : List Char}
    {ks : List Lexeme} : lex m (s ++ t) = some (ls ++ ks) ↔ lex m t = some ks := by
  rw [hs.lex_append, Option.map_eq_some_iff]
  simp

theorem Whole.lex {s : List Char} {ls : List Lexeme} (hs : Whole m s ls) : lex m s = some ls := by
  rw [Lexing.lex, hs]
  simp [finish]

/-! ## Words -/

theorem scan_word : ∀ {w : List Char} (read : List Char), (∀ c ∈ w, m.word c = true) →
    scan m (.word read) w = ([], .word (read ++ w))
  | [], read, _ => by simp [scan]
  | c :: w, read, h => by
      have hc := h c List.mem_cons_self
      have ih := scan_word (read ++ [c]) fun d hd => h d (List.mem_cons_of_mem c hd)
      simp [scan, step, hc, ih]

/-- A word is over at a symbol. -/
theorem whole_word {c d : Char} {w : List Char} (hc : plainStep m c = ([], .word [c]))
    (hw : ∀ e ∈ w, m.word e = true) (hd : m.word d = false)
    (hsymbol : plainStep m d = ([.symbol d], .plain)) :
    Whole m (c :: (w ++ [d])) [.word (String.ofList (c :: w)), .symbol d] := by
  have hscan := scan_word [c] hw
  rw [Whole, scan, step, hc]
  simp [scan_append, hscan, scan, step, hd, hsymbol]

/-! ## Quotations -/

@[simp] theorem quotation_nil (q : Quotation) : quotation m q [] = none := rfl

@[simp] theorem quotation_mark (q : Quotation) (cs : List Char) :
    quotation m q (m.mark q :: cs) = some ([], cs) := by
  rw [quotation.eq_def]
  simp

@[simp] theorem quotation_escape (q : Quotation) (d : Char) (ds : List Char) :
    quotation m q (m.escape :: d :: ds) =
      (quotation m q ds).map fun r => (m.unescape q d ++ r.1, r.2) := by
  rw [quotation.eq_def]
  simp [m.escape_ne q]

@[simp] theorem quotation_escape_nil (q : Quotation) : quotation m q [m.escape] = none := by
  rw [quotation.eq_def]
  simp [m.escape_ne q]

theorem quotation_other {q : Quotation} {c : Char} (hmark : c ≠ m.mark q) (hesc : c ≠ m.escape)
    (cs : List Char) : quotation m q (c :: cs) = (quotation m q cs).map fun r =>
    (c :: r.1, r.2) := by
  rw [quotation.eq_def]
  simp [hmark, hesc]

theorem scan_quotation {q : Quotation} : ∀ {text v rest : List Char} (read : List Char),
    quotation m q text = some (v, rest) →
    scan m (.quoted q read) text =
      (.quoted q (String.ofList (read ++ v)) :: (scan m .plain rest).1, (scan m .plain rest).2)
  | [], v, rest, read, h => by simp at h
  | [c], v, rest, read, h => by
      -- a mark ends the quotation unless an escape stands before it
      by_cases hmark : c = m.mark q
      · subst hmark
        rw [quotation_mark] at h
        injection h with h; injection h with h1 h2; subst h1 h2
        simp [scan, step]
      · by_cases hesc : c = m.escape
        · subst hesc
          exact absurd h (by simp)
        · rw [quotation_other hmark hesc] at h
          exact absurd h (by simp)
  | c :: d :: cs, v, rest, read, h => by
      by_cases hmark : c = m.mark q
      · subst hmark
        rw [quotation_mark] at h
        injection h with h; injection h with h1 h2; subst h1 h2
        simp [scan, step]
      · by_cases hesc : c = m.escape
        · subst hesc
          rw [quotation_escape] at h
          obtain ⟨⟨v', rest'⟩, hcs, hr⟩ := Option.map_eq_some_iff.mp h
          injection hr with h1 h2; subst h1 h2
          have ih := scan_quotation (read ++ m.unescape q d) hcs
          simp [scan, step, m.escape_ne q, ih]
        · rw [quotation_other hmark hesc] at h
          obtain ⟨⟨v', rest'⟩, hcs, hr⟩ := Option.map_eq_some_iff.mp h
          injection hr with h1 h2; subst h1 h2
          have ih := scan_quotation (read ++ [c]) hcs
          rw [scan]
          simp [step, hmark, hesc, ih]

/-- A quotation without an end leaves nothing behind. -/
theorem scan_open {q : Quotation} : ∀ {text : List Char} (read : List Char), quotation m q text =
    none → finish (scan m (.quoted q read) text).2 = none
  | [], read, _ => rfl
  | [c], read, h => by
      by_cases hmark : c = m.mark q
      · subst hmark
        exact absurd h (by simp)
      · by_cases hesc : c = m.escape
        · simp [scan, step, hesc, m.escape_ne q, finish]
        · simp [scan, step, hmark, hesc, finish]
  | c :: d :: cs, read, h => by
      by_cases hmark : c = m.mark q
      · subst hmark
        exact absurd h (by simp)
      · by_cases hesc : c = m.escape
        · subst hesc
          rw [quotation_escape, Option.map_eq_none_iff] at h
          have ih := scan_open (read ++ m.unescape q d) h
          simp [scan, step, m.escape_ne q, ih]
        · rw [quotation_other hmark hesc, Option.map_eq_none_iff] at h
          have ih := scan_open (read ++ [c]) h
          rw [scan]
          simp [step, hmark, hesc, ih]

/-- A quotation is entered by its mark. -/
theorem scan_mark (q : Quotation) (text : List Char) :
    scan m .plain (m.mark q :: text) = scan m (.quoted q []) text := by
  have hstep : plainStep m (m.mark q) = ([], .quoted q []) := by
    cases q with
    | name => simp [plainStep]
    | text => simp [plainStep, m.differ.symm]
  simp [scan, step, hstep]

/-- What a text that starts with a quotation is read as. -/
theorem lex_mark {q : Quotation} {text : List Char} {ls : List Lexeme}
    (h : lex m (m.mark q :: text) = some ls) : ∃ v rest ks, quotation m q text = some (v, rest) ∧
      lex m rest = some ks ∧ ls = .quoted q (String.ofList v) :: ks := by
  rw [lex, scan_mark] at h
  cases hq : quotation m q text with
  | none =>
      rw [scan_open [] hq] at h
      exact absurd h (by simp)
  | some r =>
      obtain ⟨v, rest⟩ := r
      rw [scan_quotation [] hq] at h
      obtain ⟨last, hlast, hls⟩ := Option.map_eq_some_iff.mp h
      refine ⟨v, rest, (scan m .plain rest).1 ++ last, rfl, ?_, hls.symm⟩
      rw [lex, hlast]
      rfl

/-- A quotation that ends where the text does is one lexeme. -/
theorem whole_quotation {q : Quotation} {text v : List Char}
    (h : quotation m q text = some (v, [])) :
    Whole m (m.mark q :: text) [.quoted q (String.ofList v)] := by
  rw [Whole, scan_mark, scan_quotation [] h]
  rfl

/-! ## Escaping -/

/-- The marks and escapes of a text escaped. -/
def escaped (m : Marks) (q : Quotation) (cs : List Char) : List Char :=
  cs.flatMap fun c => if c = m.mark q ∨ c = m.escape then [m.escape, c] else [c]

/-- **An escaped text is read back**, up to the mark after it. -/
theorem quotation_escaped {q : Quotation} (rest : List Char) : ∀ cs : List Char,
    quotation m q (escaped m q cs ++ m.mark q :: rest) = some (cs, rest)
  | [] => by simp [escaped]
  | c :: cs => by
      have ih := quotation_escaped (q := q) rest cs
      unfold escaped at ih ⊢
      by_cases hmark : c = m.mark q
      · simp [hmark, m.unescape_mark q, ih]
      · by_cases hesc : c = m.escape
        · simp [hesc, m.unescape_escape q, ih]
        · simp [hmark, hesc, quotation_other, ih]

/-! ## Doubling -/

/-- The marks of a text doubled. -/
def doubled (m : Marks) (q : Quotation) (cs : List Char) : List Char :=
  cs.flatMap fun c => if c = m.mark q then [c, c] else [c]

/-- Without marks and escapes. -/
def Clean (m : Marks) (q : Quotation) (cs : List Char) : Prop :=
  ∀ c ∈ cs, c ≠ m.mark q ∧ c ≠ m.escape

instance (q : Quotation) (cs : List Char) : Decidable (Clean m q cs) :=
  inferInstanceAs (Decidable (∀ c ∈ cs, _))

theorem doubled_mark (q : Quotation) (cs : List Char) :
    doubled m q (m.mark q :: cs) = m.mark q :: m.mark q :: doubled m q cs := by
  simp [doubled]

theorem doubled_other {q : Quotation} {c : Char} (h : c ≠ m.mark q) (cs : List Char) :
    doubled m q (c :: cs) = c :: doubled m q cs := by
  simp [doubled, h]

theorem quotation_clean {q : Quotation} {rest : List Char} : ∀ {cs : List Char}, Clean m q cs →
    quotation m q (doubled m q cs ++ m.mark q :: rest) = some (cs, rest)
  | [], _ => by simp [doubled]
  | c :: cs, h => by
      have hc := h c List.mem_cons_self
      have hcs : Clean m q cs := fun d hd => h d (List.mem_cons_of_mem c hd)
      have ih : quotation m q (doubled m q cs ++ m.mark q :: rest) = some (cs, rest) :=
        quotation_clean hcs
      rw [doubled_other hc.1, List.cons_append, quotation_other hc.1 hc.2, ih]
      rfl

section Doubling

variable {q : Quotation} (hu : ∀ c, m.unescape q c = [c])

include hu

/-- What is quoted where marks are doubled is no longer than the text, or it reached over the
mark at the end of a text without marks. -/
theorem quotation_doubled {rest : List Char} : ∀ {cs v r : List Char},
    quotation m q (doubled m q cs ++ m.mark q :: rest) = some (v, r) →
    v.length ≤ cs.length ∨ m.mark q ∈ v ∧ m.mark q ∉ cs
  | [], v, r, h => by
      simp [doubled] at h
      simp [h.1]
  | [c], v, r, h => by
      by_cases hmark : c = m.mark q
      · subst hmark
        simp [doubled] at h
        simp [← h.1]
      · by_cases hesc : c = m.escape
        · -- the mark at the end is escaped
          subst hesc
          simp [doubled, hmark, hu] at h
          obtain ⟨v', _, _, rfl, _⟩ := h
          exact .inr ⟨by simp, by simpa using fun he => hmark he.symm⟩
        · simp [doubled, hmark, hesc, quotation_other] at h
          simp [← h.1]
  | c :: d :: cs, v, r, h => by
      by_cases hmark : c = m.mark q
      · subst hmark
        rw [doubled_mark, List.cons_append, quotation_mark] at h
        injection h with h; injection h with hv _; subst hv
        exact .inl (Nat.zero_le _)
      · rw [doubled_other hmark, List.cons_append] at h
        by_cases hesc : c = m.escape
        · subst hesc
          by_cases hd : d = m.mark q
          · -- the first of the two marks is escaped, the second is the end
            subst hd
            rw [doubled_mark, List.cons_append, quotation_escape, List.cons_append, quotation_mark,
              hu] at h
            injection h with h; injection h with hv _; subst hv
            exact .inl (by simp)
          · rw [doubled_other hd, List.cons_append, quotation_escape, hu] at h
            obtain ⟨⟨v', r'⟩, htail, hr⟩ := Option.map_eq_some_iff.mp h
            injection hr with hv _; subst hv
            rcases quotation_doubled htail with hlen | ⟨hin, hno⟩
            · exact .inl (by simp only [List.length_append, List.length_cons,
                List.length_nil]; omega)
            · refine .inr ⟨List.mem_append_right _ hin, fun hmem => ?_⟩
              rcases List.mem_cons.mp hmem with he | hmem
              · exact hmark he.symm
              · rcases List.mem_cons.mp hmem with he | hmem
                · exact hd he.symm
                · exact hno hmem
        · rw [quotation_other hmark hesc] at h
          obtain ⟨⟨v', r'⟩, htail, hr⟩ := Option.map_eq_some_iff.mp h
          injection hr with hv _; subst hv
          rcases quotation_doubled htail with hlen | ⟨hin, hno⟩
          · exact .inl (by simp only [List.length_cons] at hlen ⊢; omega)
          · refine .inr ⟨List.mem_cons_of_mem c hin, fun hmem => ?_⟩
            rcases List.mem_cons.mp hmem with he | hmem
            · exact hmark he.symm
            · exact hno hmem

/-- **A text whose doubling is read back is clean.** -/
theorem clean_of_quotation {rest : List Char} : ∀ {cs r : List Char},
    quotation m q (doubled m q cs ++ m.mark q :: rest) = some (cs, r) → Clean m q cs
  | [], _, _ => fun _ hc => absurd hc List.not_mem_nil
  | [c], r, h => by
      intro d hd
      rw [List.mem_singleton.mp hd]
      refine ⟨fun hmark => ?_, fun hesc => ?_⟩
      · subst hmark
        simp [doubled] at h
      · subst hesc
        rw [doubled_other (m.escape_ne q)] at h
        simp [doubled, hu] at h
        exact m.escape_ne q h.2.symm
  | c :: d :: cs, r, h => by
      have hmark : c ≠ m.mark q := by
        intro hmark
        subst hmark
        rw [doubled_mark, List.cons_append, quotation_mark] at h
        injection h with h; injection h with hv _
        exact absurd hv (by simp)
      rw [doubled_other hmark, List.cons_append] at h
      by_cases hesc : c = m.escape
      · exfalso
        subst hesc
        by_cases hd : d = m.mark q
        · subst hd
          rw [doubled_mark, List.cons_append, quotation_escape, hu] at h
          obtain ⟨⟨v', r'⟩, _, hr⟩ := Option.map_eq_some_iff.mp h
          have hhead := (List.cons.inj (Prod.mk.inj hr).1).1
          exact m.escape_ne q hhead.symm
        · rw [doubled_other hd, List.cons_append, quotation_escape, hu] at h
          obtain ⟨⟨v', r'⟩, htail, hr⟩ := Option.map_eq_some_iff.mp h
          -- one character was used up for two
          have hhead := List.cons.inj (Prod.mk.inj hr).1
          have hvalue : v' = m.escape :: cs := by rw [← hhead.1]; exact hhead.2
          rcases quotation_doubled hu htail with hlen | ⟨hin, hno⟩
          · rw [hvalue, List.length_cons] at hlen
            omega
          · rw [hvalue] at hin
            rcases List.mem_cons.mp hin with he | hin
            · exact m.escape_ne q he.symm
            · exact hno hin
      · rw [quotation_other hmark hesc] at h
        obtain ⟨⟨v', r'⟩, htail, hr⟩ := Option.map_eq_some_iff.mp h
        injection hr with hv _; injection hv with _ hv; subst hv
        have ih := clean_of_quotation htail
        intro e he
        rcases List.mem_cons.mp he with rfl | he
        · exact ⟨hmark, hesc⟩
        · exact ih e he

/-- **A quotation with its marks doubled** is read as it is meant just if it is clean. -/
theorem lex_doubled_iff {cs rest : List Char} {ks : List Lexeme} :
    lex m (m.mark q :: (doubled m q cs ++ m.mark q :: rest)) =
    some (.quoted q (String.ofList cs) :: ks) ↔
      Clean m q cs ∧ lex m rest = some ks := by
  constructor
  · intro h
    obtain ⟨v, rest', ks', hq, hrest, hls⟩ := lex_mark h
    rw [List.cons.injEq, Lexeme.quoted.injEq] at hls
    have hv : v = cs := String.ofList_inj.mp hls.1.2.symm
    subst hv
    have hclean : Clean m q v := clean_of_quotation hu hq
    rw [quotation_clean hclean] at hq
    injection hq with hq; injection hq with _ hq
    rw [hq, hrest, hls.2]
    exact ⟨hclean, rfl⟩
  · intro h
    rw [lex, scan_mark, scan_quotation [] (quotation_clean h.1)]
    have hrest := h.2
    rw [lex, Option.map_eq_some_iff] at hrest
    obtain ⟨last, hlast, hks⟩ := hrest
    rw [hlast, ← hks]
    rfl

end Doubling

end Lexing
