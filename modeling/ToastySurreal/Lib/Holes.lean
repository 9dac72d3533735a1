import Mathlib.Data.List.Basic

/-!
# Texts with holes

A text names its parameters by a sigil and a word, `$p0`, except inside quotes, where the
sigil is a character like any other. Reading such a text gives a list of pieces, characters
and holes. The reader goes through the text once, with the word it is in the middle of as
its state, so a text is read in parts: two texts one after the other are read as one where
the first does not stop inside quotes and the second does not go on with its last word.
-/

namespace Holes

/-- A character, or a hole with something in it. -/
inductive Piece (V : Type) where
  | char (c : Char)
  | hole (v : V)
  deriving DecidableEq

def Piece.map {V W : Type} (f : V → W) : Piece V → Piece W
  | .char c => .char c
  | .hole v => .hole (f v)

/-- A text without holes. -/
def chars {V : Type} (cs : List Char) : List (Piece V) := cs.map .char

/-- What a text takes for a parameter, and what for a quotation. -/
structure Marks where
  sigil : Char
  quote : Char
  word : Char → Bool
  differ : sigil ≠ quote
  ends : word sigil = false

/-- Where the reader is. -/
inductive Mode where
  | plain
  | quoted
  /-- In a hole's name, of which this was read. -/
  | naming (name : List Char)
  deriving DecidableEq

variable (m : Marks)

/-- One character outside of quotes and names. -/
def plainStep (c : Char) : List (Piece String) × Mode :=
  if c = m.sigil then ([], .naming [])
  else ([.char c], if c = m.quote then .quoted else .plain)

def step : Mode → Char → List (Piece String) × Mode
  | .plain, c => plainStep m c
  | .quoted, c => ([.char c], if c = m.quote then .plain else .quoted)
  | .naming name, c =>
      if m.word c then ([], .naming (name ++ [c]))
      else (.hole (String.ofList name) :: (plainStep m c).1, (plainStep m c).2)

/-- The pieces a text leaves behind, and where the reader is after it. -/
def scan : Mode → List Char → List (Piece String) × Mode
  | mode, [] => ([], mode)
  | mode, c :: cs =>
      let next := step m mode c
      let rest := scan next.2 cs
      (next.1 ++ rest.1, rest.2)

/-- The name a text stopped in. -/
def flush : Mode → List (Piece String)
  | .naming name => [.hole (String.ofList name)]
  | _ => []

def read (text : List Char) : List (Piece String) :=
  let done := scan m .plain text
  done.1 ++ flush done.2

/-- A text that stops outside of quotes. -/
def Closed (text : List Char) : Prop := (scan m .plain text).2 ≠ .quoted

/-- A text without holes that stops outside of quotes and names. -/
def Plain (text : List Char) : Prop := scan m .plain text = (chars text, .plain)

instance (text : List Char) : Decidable (Closed m text) := inferInstanceAs (Decidable (_ ≠ _))

instance (text : List Char) : Decidable (Plain m text) := inferInstanceAs (Decidable (_ = _))

/-- A text that does not go on with a word. -/
def Ended (text : List Char) : Prop := ∀ c ∈ text.head?, m.word c = false

variable {m}

theorem ended_nil : Ended m [] := fun _ h => nomatch h

theorem ended_cons {c : Char} {text : List Char} : m.word c = false ↔ Ended m (c :: text) := by
  simp [Ended]

instance : (text : List Char) → Decidable (Ended m text)
  | [] => .isTrue ended_nil
  | _ :: _ => decidable_of_iff _ ended_cons

/-! ## Reading in parts -/

theorem scan_append : ∀ (s t : List Char) (mode : Mode),
    scan m mode (s ++ t) =
      ((scan m mode s).1 ++ (scan m (scan m mode s).2 t).1, (scan m (scan m mode s).2 t).2)
  | [], t, mode => by simp [scan]
  | c :: s, t, mode => by simp [scan, scan_append s t]

/-- In the middle of a name, a text that does not go on with a word is read as from its start. -/
theorem scan_naming {name t : List Char} (ht : Ended m t) :
    (scan m (.naming name) t).1 ++ flush (scan m (.naming name) t).2 = .hole (String.ofList name) ::
    read m t ∧
      (t ≠ [] → (scan m (.naming name) t).2 = (scan m .plain t).2) := by
  cases t with
  | nil => exact ⟨rfl, fun h => absurd rfl h⟩
  | cons c t =>
      have hc : m.word c = false := ht c rfl
      simp [scan, step, hc, read]

/-- **Two texts are read as one**, where they come apart. -/
theorem read_append {s t : List Char} (hs : Closed m s) (ht : Ended m t) :
    read m (s ++ t) = read m s ++ read m t := by
  rw [read, scan_append, read]
  unfold Closed at hs
  cases hmode : (scan m .plain s).2 with
  | plain => simp [flush, read]
  | quoted => exact absurd hmode hs
  | naming name =>
      have hflush : flush (.naming name) = [.hole (String.ofList name)] := rfl
      rw [List.append_assoc, List.append_assoc, (scan_naming ht).1, hflush]
      rfl

theorem Closed.append {s t : List Char} (hs : Closed m s) (ht : Closed m t) (he : Ended m t) :
    Closed m (s ++ t) := by
  unfold Closed at hs ⊢
  rw [scan_append]
  cases hmode : (scan m .plain s).2 with
  | plain => exact ht
  | quoted => exact absurd hmode hs
  | naming name =>
      by_cases hnil : t = []
      · subst hnil
        exact fun h => Mode.noConfusion h
      · exact fun h => ht ((scan_naming he).2 hnil ▸ h)

/-! ## Plain texts -/

theorem Plain.nil : Plain m [] := rfl

theorem Plain.append {s t : List Char} (hs : Plain m s) (ht : Plain m t) : Plain m (s ++ t) := by
  unfold Plain at hs ht ⊢
  rw [scan_append, hs, ht]
  simp [chars]

theorem Plain.closed {s : List Char} (h : Plain m s) : Closed m s := by
  rw [Closed, h]
  exact fun h => Mode.noConfusion h

theorem Plain.read {s : List Char} (h : Plain m s) : read m s = chars s := by
  rw [Holes.read, h]
  simp [flush]

/-- A plain text may be followed by anything. -/
theorem Plain.read_append {s : List Char} (h : Plain m s) (t : List Char) :
    Holes.read m (s ++ t) = chars s ++ Holes.read m t := by
  rw [Holes.read, scan_append, h]
  simp [Holes.read]

theorem Plain.closed_append {s t : List Char} (h : Plain m s) (ht : Closed m t) :
    Closed m (s ++ t) := by
  unfold Closed at ht ⊢
  rw [scan_append, h]
  exact ht

theorem plain_of_ordinary : ∀ {s : List Char}, (∀ c ∈ s, c ≠ m.sigil ∧ c ≠ m.quote) → Plain m s
  | [], _ => .nil
  | c :: s, h => by
      have hc := h c List.mem_cons_self
      have ih := plain_of_ordinary fun d hd => h d (List.mem_cons_of_mem c hd)
      unfold Plain at ih ⊢
      simp [scan, step, plainStep, hc.1, hc.2, ih, chars]

/-- What stands in quotes is text, with its quotes doubled. -/
theorem scan_quoted (cs : List Char) : ∀ s : List Char,
    scan m .quoted ((s.flatMap fun d => if d = m.quote then [m.quote, m.quote] else [d]) ++
      m.quote :: cs) =
      (chars ((s.flatMap fun d => if d = m.quote then [m.quote, m.quote] else [d]) ++ [m.quote]) ++
        (scan m .plain cs).1, (scan m .plain cs).2)
  | [] => by simp [scan, step, chars]
  | d :: s => by
      have ih := scan_quoted cs s
      by_cases hd : d = m.quote
      · simp [scan, step, plainStep, hd, m.differ.symm, chars] at ih ⊢
        rw [ih]
        simp
      · simp [scan, step, hd, chars] at ih ⊢
        rw [ih]
        simp

theorem plain_quoted (s : List Char) :
    Plain m (m.quote ::
      ((s.flatMap fun d => if d = m.quote then [m.quote, m.quote] else [d]) ++ [m.quote])) := by
  have h := @scan_quoted m [] s
  unfold Plain
  simp only [scan, step, plainStep, if_neg m.differ.symm, if_true]
  rw [h]
  simp [scan, chars]

/-! ## Holes -/

theorem scan_word : ∀ {name : List Char} (before : List Char), (∀ c ∈ name, m.word c = true) →
    scan m (.naming before) name = ([], .naming (before ++ name))
  | [], before, _ => by simp [scan]
  | c :: name, before, h => by
      have hc := h c List.mem_cons_self
      have ih := scan_word (before ++ [c]) fun d hd => h d (List.mem_cons_of_mem c hd)
      simp [scan, step, hc, ih]

/-- **A parameter is one hole.** -/
theorem read_hole {name : List Char} (h : ∀ c ∈ name, m.word c = true) :
    read m (m.sigil :: name) = [.hole (String.ofList name)] ∧ Closed m (m.sigil :: name) := by
  have hscan : scan m .plain (m.sigil :: name) = ([], .naming name) := by
    simp [scan, step, plainStep, scan_word [] h]
  constructor
  · rw [read, hscan]; rfl
  · rw [Closed, hscan]; exact fun h => Mode.noConfusion h

/-- What a text that goes on with a word starts with. -/
theorem Ended.append {s : List Char} (h : Ended m s) (hne : s ≠ []) (t : List Char) :
    Ended m (s ++ t) := by
  cases s with
  | nil => exact absurd rfl hne
  | cons c s => exact h

end Holes
