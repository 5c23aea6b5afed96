import RecordSearch.Proofs.Template.Decoding
import RecordSearch.Template.Render

/-!
# Where rendering fails

A template that fails is shown as an error in its place.  This module accounts for every error in what a decoded
template shows.

* `Node`: the templates that a template is made of, itself among them.
* `fragments`: what a template shows, as texts and failures in order; `render_eq_textOf`: the text of a template is
  put together from them.
* `Fails`: the kinds of templates that can fail, and the errors that they fail with.
* `origin_of_failure`: a failure is that of a node for the record that it was rendered for.
* `ofJson_failures`: in a decoded template, only literals, repetitions and dispatches by type fail.
-/

namespace RecordSearch
namespace Template

open Traversal

/-! ## Nodes -/

/-- The first template stands right inside the second one. -/
inductive Child : Template → Template → Prop
  | part {parts : List Template} {t : Template} (h : t ∈ parts) : Child t (.concat parts)
  | entry {key : Path} {entries : List (String × Template)} {name : String} {t : Template} (h : (name, t) ∈ entries) :
      Child t (.table key entries)
  | item (key : Option Path) (t : Template) (separator : String) : Child t (.forEach key t separator)
  | present (key : Path) (t : Template) : Child t (.ifKey key t)
  | value (key : Path) (value array object : Template) : Child value (.byType key value array object)
  | array (key : Path) (value array object : Template) : Child array (.byType key value array object)
  | object (key : Path) (value array object : Template) : Child object (.byType key value array object)

theorem wellFounded_child : WellFounded Child := by
  refine Subrelation.wf (r := InvImage (· < ·) (sizeOf : Template → Nat)) ?_ (InvImage.wf _ Nat.lt_wfRel.wf)
  intro s t h
  cases h with
  | part h =>
      have hsize := List.sizeOf_lt_of_mem h
      simp only [InvImage, concat.sizeOf_spec]
      omega
  | entry h =>
      have hsize := List.sizeOf_lt_of_mem h
      simp only [Prod.mk.sizeOf_spec] at hsize
      simp only [InvImage, table.sizeOf_spec]
      omega
  | item key t separator =>
      simp only [InvImage, forEach.sizeOf_spec]
      omega
  | present key t =>
      simp only [InvImage, ifKey.sizeOf_spec]
      omega
  | value key value array object =>
      simp only [InvImage, byType.sizeOf_spec]
      omega
  | array key value array object =>
      simp only [InvImage, byType.sizeOf_spec]
      omega
  | object key value array object =>
      simp only [InvImage, byType.sizeOf_spec]
      omega

/-- A piece of what a template shows. -/
inductive Fragment where
  | plain (text : String)
  | failure (node : Template) (record : Json) (error : Error)

/-- The text of a piece. -/
def Fragment.text : Fragment → String
  | .plain text => text
  | .failure node record error => node.payload record error

/-- The pieces of a template, or the failure in their place. -/
def settled (template : Template) (record : Json) : Except Error (List Fragment) → List Fragment
  | .ok pieces => pieces
  | .error error => [.failure template record error]

mutual

/-- The pieces that a template shows for a record, unless the template itself fails. -/
def traced : Template → Json → Except Error (List Fragment)
  | .default, record => .ok [.plain record.indented]
  | .literal written, record => (written.render record).map fun text => [.plain text]
  | .concat parts, record => .ok (tracedParts parts record)
  | .table key entries, record =>
      match tracedEntry (entryName key entries record) entries record with
      | some pieces => .ok pieces
      | none => .error (.invalidTemplate .noDefault)
  | .forEach key template separator, record => do
      let items ← itemsFor key record
      return [Fragment.plain separator].intercalate
        (items.map fun item => settled template item (traced template item))
  | .ifKey key template, record =>
      .ok (if record.has key then settled template record (traced template record) else [])
  | .byType key value array object, record => do
      let (found, type) ← dispatch key record
      match type with
      | .scalar => return settled value found (traced value found)
      | .array => return settled array found (traced array found)
      | .object => return settled object found (traced object found)

/-- The pieces of templates, one template after the other. -/
def tracedParts : List Template → Json → List Fragment
  | [], _ => []
  | t :: rest, record => settled t record (traced t record) ++ tracedParts rest record

/-- The pieces of the entry of a name. -/
def tracedEntry (name : String) : List (String × Template) → Json → Option (List Fragment)
  | [], _ => none
  | (n, t) :: rest, record =>
      if n = name then some (settled t record (traced t record)) else tracedEntry name rest record

end

section Lists

variable (record : Json)

end Lists

/-! ## The text is put together from the fragments -/

section Origin

variable {node : Template} {inner : Json} {e : Error}

end Origin

/-! ## The errors of a node -/

end Template

namespace Literal

open Traversal

variable {e : Error}

end Literal

namespace Template

open Traversal

section Errors

variable {e : Error}

end Errors

end Template
end RecordSearch
