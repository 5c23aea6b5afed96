import RecordSearch.Document
import RecordSearch.Template.Cache
import RecordSearch.Template.Render

/-!
# Views of a document

A view renders the records of a document and keeps what it has rendered.
-/

namespace RecordSearch

/-- A document with the texts rendered so far. -/
structure View where
  document : Document
  cache : Cache

namespace View

/-- The view of a document with nothing rendered. -/
def new (document : Document) : View :=
  ⟨document, Cache.new document.database.records.length⟩

/-- The text of the record at a position, and the view afterwards. -/
def render (view : View) (index : Nat) : Option String × View :=
  match view.document.database.records[index]? with
  | none => (none, view)
  | some record =>
      let cached := view.cache.getOrRender index fun _ => view.document.template.render record
      (some cached.text, { view with cache := cached.cache })

/-- The texts of the records at those of the positions that have one, and the view afterwards. -/
def renderAll (view : View) : List Nat → List String × View
  | [] => ([], view)
  | index :: rest =>
      let (first, view) := view.render index
      let (others, view) := view.renderAll rest
      (first.toList ++ others, view)

end View
end RecordSearch
