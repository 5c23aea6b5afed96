import RecordSearch.Document

/-!
# Selection of modes

Without a selection of modes every field of a document is shown; with one, the fields that are visible under it.
Criteria on fields that are not shown are dropped from a query.
-/

namespace RecordSearch.Document

/-- The names of the fields that a selection of modes shows, or nothing if it restricts nothing. -/
def shown? (doc : Document) (selected : List String) : Option (List String) :=
  if selected.isEmpty then none else some (doc.visibleFields selected)

/-- A field is shown. -/
def shows (shown : Option (List String)) (name : String) : Bool :=
  match shown with
  | none => true
  | some names => names.contains name

/-- The criteria that a selection of modes leaves. -/
def keptCriteria (doc : Document) (selected : List String) (criteria : Members) : Members :=
  criteria.filter fun (name, _) => shows (doc.shown? selected) name

/-- The criteria that a selection of modes drops. -/
def droppedCriteria (doc : Document) (selected : List String) (criteria : Members) : Members :=
  criteria.filter fun (name, _) => !shows (doc.shown? selected) name

/-- The warnings about the criteria that a selection of modes drops. -/
def droppingWarnings (doc : Document) (selected : List String) (criteria : Members) : List Warning :=
  (doc.droppedCriteria selected criteria).map fun (name, _) => .hiddenCriteria doc.name name

/-- Without a selection all criteria are kept. -/
theorem keptCriteria_nil (doc : Document) (criteria : Members) : doc.keptCriteria [] criteria = criteria := by
  simp [keptCriteria, shown?, shows]

end RecordSearch.Document
