import Mathlib.Data.List.Basic

/-!
# Pieces of SurrealQL text

Every statement the driver sends is assembled by `format!` from fixed words and
escaped identifiers. An escaped identifier can be read back off the front of any
text that does not go on with a backtick, so a statement that strings several of
them together still determines each one. That is what makes comparing two
statements as text the same as comparing what they say.
-/

namespace ToastySurreal

def backtick : Char := Char.ofNat 96

/-- `str::replace` with a one-character pattern. -/
def replaceChar (c : Char) (by_ s : String) : String :=
  String.ofList (s.toList.flatMap fun d => if d = c then by_.toList else [d])

/-- `expr::escape_ident`: wrap in backticks, doubling the embedded ones. -/
def escapeIdent (name : String) : String := "`" ++ replaceChar backtick "``" name ++ "`"

example : escapeIdent "a`b" = "`a``b`" := by decide

/-- `escape_ident` on characters, up to the closing backtick. -/
def doubled (cs : List Char) : List Char :=
  cs.flatMap fun d => if d = backtick then [backtick, backtick] else [d]

theorem escapeIdent_toList (name : String) :
    (escapeIdent name).toList = backtick :: (doubled name.toList ++ [backtick]) := by
  simp [escapeIdent, replaceChar, String.toList_append, doubled, backtick]

/-- What follows an identifier in a statement does not start with a backtick. -/
def Closed (rest : List Char) : Prop := rest.head? ≠ some backtick

theorem doubled_inj : ∀ {as bs r r' : List Char}, Closed r → Closed r' →
    doubled as ++ backtick :: r = doubled bs ++ backtick :: r' → as = bs ∧ r = r'
  | [], [], r, r', _, _, h => by simpa [doubled] using h
  | [], b :: bs, r, r', hr, _, h => by
      exfalso
      by_cases hb : b = backtick
      · simp [doubled, hb] at h
        exact hr (by rw [h]; rfl)
      · simp [doubled, hb] at h
        exact absurd h.1.symm hb
  | a :: as, [], r, r', _, hr', h => by
      exfalso
      by_cases ha : a = backtick
      · simp [doubled, ha] at h
        exact hr' (by rw [← h]; rfl)
      · simp [doubled, ha] at h
  | a :: as, b :: bs, r, r', hr, hr', h => by
      have key : a = b ∧ doubled as ++ backtick :: r = doubled bs ++ backtick :: r' := by
        by_cases ha : a = backtick <;> by_cases hb : b = backtick
        · simp [doubled, ha, hb] at h ⊢; exact h
        · simp [doubled, ha, hb] at h; exact absurd h.1.symm hb
        · simp [doubled, ha, hb] at h
        · simp [doubled, ha, hb] at h ⊢; exact h
      obtain ⟨rfl, hrest⟩ := key
      obtain ⟨rfl, rfl⟩ := doubled_inj hr hr' hrest
      exact ⟨rfl, rfl⟩

/-- **An escaped identifier is read back off the front of a text**, together with
what follows it. -/
theorem escapeIdent_append_inj {a b r r' : String} (hr : Closed r.toList) (hr' : Closed r'.toList)
    (h : escapeIdent a ++ r = escapeIdent b ++ r') : a = b ∧ r = r' := by
  have hl := congrArg String.toList h
  simp only [String.toList_append, escapeIdent_toList, List.cons_append, List.append_assoc,
    List.nil_append, List.cons.injEq, true_and] at hl
  obtain ⟨hab, hrr⟩ := doubled_inj hr hr' hl
  exact ⟨String.toList_inj.mp hab, String.toList_inj.mp hrr⟩

theorem escapeIdent_inj {a b : String} (h : escapeIdent a = escapeIdent b) : a = b := by
  have hnil : Closed "".toList := by simp [Closed]
  exact (escapeIdent_append_inj hnil hnil (by rw [String.append_empty, String.append_empty, h])).1

/-- `[String]::join`. -/
def join (sep : String) : List String → String
  | [] => ""
  | [s] => s
  | s :: t :: rest => s ++ sep ++ join sep (t :: rest)

/-- A comma-separated list of escaped identifiers. -/
def identList (names : List String) : String := join ", " (names.map escapeIdent)

theorem append_left_cancel {p a b : String} (h : p ++ a = p ++ b) : a = b := by
  have hl := congrArg String.toList h
  rw [String.toList_append, String.toList_append] at hl
  exact String.toList_inj.mp (List.append_cancel_left hl)

/-- The text of an identifier list followed by `rest`: what comes after the first
identifier. -/
def identTail (names : List String) (rest : String) : String :=
  match names with
  | [] => rest
  | names => ", " ++ identList names ++ rest

theorem identList_cons (n : String) (names : List String) (rest : String) :
    identList (n :: names) ++ rest = escapeIdent n ++ identTail names rest := by
  cases names with
  | nil => simp [identList, join, identTail]
  | cons m names => simp [identList, join, identTail, String.append_assoc]

/-- What may follow an identifier list: no backtick and no comma. -/
def ListClosed (rest : List Char) : Prop :=
  rest.head? ≠ some backtick ∧ rest.head? ≠ some ','

theorem identTail_closed {names : List String} {rest : String} (h : ListClosed rest.toList) :
    Closed (identTail names rest).toList := by
  cases names with
  | nil => exact h.1
  | cons n names => simp [identTail, Closed, String.toList_append, backtick]

/-- An identifier list is read back off the front of a text. -/
theorem identList_inj : ∀ {as bs : List String} {r r' : String}, ListClosed r.toList →
    ListClosed r'.toList → identList as ++ r = identList bs ++ r' → as = bs ∧ r = r'
  | [], [], r, r', _, _, h => by simpa [identList, join] using h
  | [], b :: bs, r, r', hr, _, h => by
      exfalso
      rw [identList_cons] at h
      have hl := congrArg (fun s => s.toList.head?) h
      simp [identList, join, String.toList_append, escapeIdent_toList] at hl
      exact hr.1 hl
  | a :: as, [], r, r', _, hr', h => by
      exfalso
      rw [identList_cons] at h
      have hl := congrArg (fun s => s.toList.head?) h
      simp [identList, join, String.toList_append, escapeIdent_toList] at hl
      exact hr'.1 hl.symm
  | a :: as, b :: bs, r, r', hr, hr', h => by
      rw [identList_cons, identList_cons] at h
      obtain ⟨rfl, htail⟩ := escapeIdent_append_inj (identTail_closed hr) (identTail_closed hr') h
      cases as with
      | nil =>
          cases bs with
          | nil => exact ⟨rfl, htail⟩
          | cons b bs =>
              exfalso
              have hl := congrArg (fun s => s.toList.head?) htail
              simp [identTail, String.toList_append] at hl
              exact hr.2 hl
      | cons a' as =>
          cases bs with
          | nil =>
              exfalso
              have hl := congrArg (fun s => s.toList.head?) htail
              simp [identTail, String.toList_append] at hl
              exact hr'.2 hl.symm
          | cons b bs =>
              have hrest : identList (a' :: as) ++ r = identList (b :: bs) ++ r' := by
                simp only [identTail, String.append_assoc] at htail
                exact append_left_cancel htail
              obtain ⟨hab, hrr⟩ := identList_inj hr hr' hrest
              exact ⟨by rw [hab], hrr⟩

end ToastySurreal
