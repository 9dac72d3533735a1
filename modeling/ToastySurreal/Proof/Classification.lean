import ToastySurreal.Proof.Ignore

/-!
# Errors and the values in them

`classify_error` looks for a transaction conflict among the details of an error and its
causes, and then for two markers in the error's text. The text has values of the user in
it, and a value may hold a marker. `classification_iff` says for which kinds of errors the
class does not depend on the values: those that are conflicts by their details or by the
fixed part of their text, and those without a place for a value.
-/

namespace ToastySurreal

/-! ## Errors of the SDK -/

/-- `surrealdb::types::QueryError`, as far as the driver tells its variants apart. -/
inductive QueryError where
  | transactionConflict
  | other
  deriving DecidableEq, Repr

/-- `surrealdb::Error` with messages in `M`: each error of the chain of causes with its query
details. -/
inductive SurrealError (M : Type) where
  | root (message : M) (queryDetails : Option QueryError)
  | caused (message : M) (queryDetails : Option QueryError) (cause : SurrealError M)

namespace SurrealError

variable {M : Type}

/-- The message of the error itself. -/
def message : SurrealError M → M
  | .root message _ | .caused message _ _ => message

/-- The query details of the error and of its causes. -/
def details : SurrealError M → List (Option QueryError)
  | .root _ queryDetails => [queryDetails]
  | .caused _ queryDetails cause => queryDetails :: cause.details

/-- `is_transaction_conflict`: down the chain of causes. -/
def isTransactionConflict : SurrealError M → Bool
  | .root _ queryDetails => queryDetails = some .transactionConflict
  | .caused _ queryDetails cause =>
      if queryDetails = some .transactionConflict then true else cause.isTransactionConflict

theorem isTransactionConflict_iff : ∀ {e : SurrealError M},
    e.isTransactionConflict = true ↔ some .transactionConflict ∈ e.details
  | .root _ queryDetails => by simp [isTransactionConflict, details, eq_comm]
  | .caused _ queryDetails cause => by
      have ih := isTransactionConflict_iff (e := cause)
      by_cases h : queryDetails = some .transactionConflict
      · simp [isTransactionConflict, details, h]
      · simp [isTransactionConflict, details, h, ih, Ne.symm h]

/-- What the driver sees of an error. -/
def toDb (e : SurrealError String) : DbError := ⟨e.message, e.isTransactionConflict⟩

end SurrealError

/-! ## Messages with values in them -/

/-- The fixed part of a message: what is ahead of the first value, and behind each one. -/
structure MessageTemplate where
  front : String
  behind : List String

/-- Values, each with the fixed text behind it. A value that is missing is empty. -/
def valuesText : List String → List String → String
  | [], _ => ""
  | text :: rest, values => values.headD "" ++ (text ++ valuesText rest values.tail)

/-- The message with these values. -/
def MessageTemplate.fill (t : MessageTemplate) (values : List String) : String :=
  t.front ++ valuesText t.behind values

/-- The error whose messages have these values, from the error itself to its root. -/
def SurrealError.fill : SurrealError MessageTemplate → List (List String) → SurrealError String
  | .root t queryDetails, values => .root (t.fill (values.headD [])) queryDetails
  | .caused t queryDetails cause, values =>
      .caused (t.fill (values.headD [])) queryDetails (cause.fill values.tail)

theorem fill_message (e : SurrealError MessageTemplate) (values : List (List String)) :
    (e.fill values).message = e.message.fill (values.headD []) := by
  cases e <;> rfl

/-- Values change nothing about the details. -/
theorem fill_conflict : ∀ (e : SurrealError MessageTemplate) (values : List (List String)),
    (e.fill values).isTransactionConflict = e.isTransactionConflict
  | .root _ _, _ => rfl
  | .caused _ queryDetails cause, values => by
      have ih := fill_conflict cause values.tail
      simp only [SurrealError.fill, SurrealError.isTransactionConflict, ih]

/-- The class does not depend on the values, and is that of a conflict for every conflict. -/
structure DataIndependent (e : SurrealError MessageTemplate) : Prop where
  same : ∀ values values', (classifyError (e.fill values).toDb).kind =
    (classifyError (e.fill values').toDb).kind
  conflict : some .transactionConflict ∈ e.details →
    ∀ values, (classifyError (e.fill values).toDb).kind = .serializationFailure

/-- The marker of a transaction conflict. -/
def conflictMarker : String := "Transaction conflict:"

/-- The fixed part of a message has the marker in it. -/
def MessageTemplate.Marked (t : MessageTemplate) : Prop :=
  ∃ text ∈ t.front :: t.behind, containsText text conflictMarker = true

theorem serializationFailure_iff {err : DbError} :
    (classifyError err).kind = .serializationFailure ↔
    err.conflict = true ∨ containsText err.message conflictMarker = true := by
  unfold classifyError
  split
  · rename_i h
    exact iff_of_true rfl (by simpa [conflictMarker] using h)
  · rename_i h
    have hno : ¬(err.conflict = true ∨ containsText err.message conflictMarker = true) := by
      simpa [conflictMarker] using h
    refine iff_of_false ?_ hno
    split
    · simp [Error.conditionFailed]
    · simp [Error.driverOperationFailed]

/-- A character that the marker does not have. -/
def neutral : String := "#"

theorem infix_neutral {text rest : String} :
    conflictMarker.toList <:+: (text ++ (neutral ++ rest)).toList ↔
      conflictMarker.toList <:+: text.toList ∨ conflictMarker.toList <:+: rest.toList := by
  have hchar : neutral.toList = ['#'] := rfl
  have hno : '#' ∉ conflictMarker.toList := by decide
  rw [String.toList_append, String.toList_append, hchar, List.singleton_append,
    Lists.infix_split hno]

/-- **Neutral values show the fixed part**: the marker is in the message only if it is there. -/
theorem marked_of_neutral : ∀ {behind : List String} {front : String},
    containsText (front ++ valuesText behind (behind.map fun _ => neutral)) conflictMarker = true →
    ∃ text ∈ front :: behind, containsText text conflictMarker = true
  | [], front, h => by
      have hnil : front ++ valuesText [] [] = front := String.append_empty
      rw [List.map_nil, hnil] at h
      exact ⟨front, List.mem_cons_self, h⟩
  | text :: rest, front, h => by
      have hvalues : valuesText (text :: rest) ((text :: rest).map fun _ => neutral) =
          neutral ++ (text ++ valuesText rest (rest.map fun _ => neutral)) := rfl
      rw [hvalues, containsText_iff, infix_neutral] at h
      rcases h with h | h
      · exact ⟨front, List.mem_cons_self, containsText_iff.mpr h⟩
      · obtain ⟨found, hfound, hmarked⟩ := marked_of_neutral (containsText_iff.mpr h)
        exact ⟨found, List.mem_cons_of_mem _ hfound, hmarked⟩

/-- The marker in the fixed part is in every message. -/
theorem marked_values : ∀ {behind values : List String} {text : String}, text ∈ behind →
    containsText text conflictMarker = true →
    containsText (valuesText behind values) conflictMarker = true
  | [], _, _, h, _ => absurd h List.not_mem_nil
  | next :: rest, values, text, h, hmarked => by
      rw [valuesText, containsText_iff, String.toList_append, String.toList_append]
      rcases List.mem_cons.mp h with rfl | h
      · have hhere := containsText_iff.mp hmarked
        exact (hhere.trans (List.prefix_append _ _).isInfix).trans (List.suffix_append _ _).isInfix
      · have hrest : containsText (valuesText rest values.tail) conflictMarker = true :=
          marked_values h hmarked
        exact ((containsText_iff.mp hrest).trans (List.suffix_append _ _).isInfix).trans
          (List.suffix_append _ _).isInfix

theorem MessageTemplate.Marked.fill {t : MessageTemplate} (h : t.Marked) (values : List String) :
    containsText (t.fill values) conflictMarker = true := by
  obtain ⟨text, htext, hmarked⟩ := h
  rw [MessageTemplate.fill, containsText_iff, String.toList_append]
  rcases List.mem_cons.mp htext with rfl | htext
  · exact (containsText_iff.mp hmarked).trans (List.prefix_append _ _).isInfix
  · exact (containsText_iff.mp (marked_values htext hmarked)).trans (List.suffix_append _ _).isInfix

/-- A message with a place for a value can have the marker there. -/
theorem fill_marker {t : MessageTemplate} (h : t.behind ≠ []) :
    containsText (t.fill [conflictMarker]) conflictMarker = true := by
  cases hbehind : t.behind with
  | nil => exact absurd hbehind h
  | cons text rest =>
      rw [MessageTemplate.fill, hbehind, valuesText, containsText_iff, String.toList_append,
        String.toList_append]
      exact (List.prefix_append _ _).isInfix.trans (List.suffix_append _ _).isInfix

/-- **The class of an error is independent of the values in it** just if it is a conflict by its
details, its message has no place for a value, or the fixed part of the message has the marker. -/
theorem classification_iff (e : SurrealError MessageTemplate) : DataIndependent e ↔
    some .transactionConflict ∈ e.details ∨ e.message.behind = [] ∨ e.message.Marked := by
  have hkind : ∀ values, (classifyError (e.fill values).toDb).kind = .serializationFailure ↔
      some .transactionConflict ∈ e.details ∨
        containsText (e.message.fill (values.headD [])) conflictMarker = true := by
    intro values
    rw [serializationFailure_iff, ← SurrealError.isTransactionConflict_iff,
      ← fill_conflict e values, ← fill_message e values]
    rfl
  constructor
  · intro h
    by_cases hconflict : some QueryError.transactionConflict ∈ e.details
    · exact .inl hconflict
    · by_cases hbehind : e.message.behind = []
      · exact .inr (.inl hbehind)
      · -- a value that is the marker makes a conflict, so neutral values do
        have hmarker : containsText (e.message.fill [conflictMarker]) conflictMarker = true :=
          fill_marker hbehind
        have hfirst := (hkind [[conflictMarker]]).mpr (.inr hmarker)
        rw [h.same _ [e.message.behind.map fun _ => neutral]] at hfirst
        exact .inr (.inr (marked_of_neutral (((hkind _).mp hfirst).resolve_left hconflict)))
  · intro h
    refine ⟨fun values values' => ?_, fun hconflict values => (hkind values).mpr (.inl hconflict)⟩
    rcases h with hconflict | hbehind | hmarked
    · rw [(hkind values).mpr (.inl hconflict), (hkind values').mpr (.inl hconflict)]
    · have hdb : ∀ values, (e.fill values).toDb =
        ⟨e.message.front ++ "", e.isTransactionConflict⟩ := by
        intro values
        rw [SurrealError.toDb, fill_message, fill_conflict, MessageTemplate.fill, hbehind,
          valuesText]
      rw [hdb, hdb]
    · rw [(hkind values).mpr (.inr (hmarked.fill _)), (hkind values').mpr (.inr (hmarked.fill _))]

/-! ## A clash of a unique index -/

/-- A value clashes in a unique index: the message has the index, the value and the record. -/
def uniqueViolation : SurrealError MessageTemplate :=
  .root ⟨"Database index `", ["` already contains ", ", with record `", "`"]⟩ none

/-- The value of the clash decides what is reported. -/
theorem clash_value_decides :
    (classifyError (uniqueViolation.fill [["users_name", "'Ada'", "users:1"]]).toDb).kind =
      .driverOperationFailed ∧
    (classifyError (uniqueViolation.fill
      [["users_name", "'Transaction conflict: Ada'", "users:1"]]).toDb).kind =
      .serializationFailure ∧
    (classifyError (uniqueViolation.fill
      [["users_name", "'Ada already exists'", "users:1"]]).toDb).kind = .conditionFailed ∧
    ¬ DataIndependent uniqueViolation := by
  have hplain : (classifyError
      (uniqueViolation.fill [["users_name", "'Ada'", "users:1"]]).toDb).kind =
      .driverOperationFailed := by decide +kernel
  have hretry : (classifyError (uniqueViolation.fill
      [["users_name", "'Transaction conflict: Ada'", "users:1"]]).toDb).kind =
      .serializationFailure := by
    decide +kernel
  have hexists : (classifyError (uniqueViolation.fill
      [["users_name", "'Ada already exists'", "users:1"]]).toDb).kind = .conditionFailed := by
    decide +kernel
  refine ⟨hplain, hretry, hexists, fun h => ?_⟩
  have hsame := h.same [["users_name", "'Ada'", "users:1"]]
    [["users_name", "'Transaction conflict: Ada'", "users:1"]]
  rw [hplain, hretry] at hsame
  exact absurd hsame (by decide)

end ToastySurreal
