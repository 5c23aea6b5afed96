import RecordSearch.Document.View

/-!
# Rendering from the cache

A view answers from the texts that it has kept where it can.  This module ties it to rendering without a cache, for
every sequence of calls.

**Calls.**  `Call` is a request for one text or for several, `View.run` a sequence of them on one view.

**Reference.**  `answerAnew` is the answer to a call when nothing is kept between calls.

**Results.**
* `faithful_render`, `faithful_renderAll`: what one call answers, and what holds of the view afterwards.
* `run_eq_anew`: every sequence of calls is answered as if nothing were kept.
-/

namespace RecordSearch

/-- The text of the record at a position, if there is one. -/
def Document.text? (doc : Document) (index : Nat) : Option String :=
  (doc.database.records[index]?).map doc.template.render

namespace View

/-- A call of a view. -/
inductive Call where
  | render (index : Nat)
  | renderAll (indices : List Nat)
deriving DecidableEq, Repr

/-- The answer to a call. -/
inductive Answer where
  | text (found : Option String)
  | texts (found : List String)
deriving DecidableEq, Repr

/-- The answer to a call when every record is rendered anew. -/
def answerAnew (doc : Document) : Call → Answer
  | .render index => .text (doc.text? index)
  | .renderAll indices => .texts (indices.filterMap doc.text?)

/-- The answer to a call, and the view afterwards. -/
def call (view : View) : Call → Answer × View
  | .render index =>
      let (text, view) := view.render index
      (.text text, view)
  | .renderAll indices =>
      let (texts, view) := view.renderAll indices
      (.texts texts, view)

/-- The answers to calls one after the other, and the view afterwards. -/
def run (view : View) : List Call → List Answer × View
  | [] => ([], view)
  | call :: rest =>
      let (first, view) := view.call call
      let (others, view) := view.run rest
      (first :: others, view)

/-- A view of the document with one slot for each record, in which only the texts of the records are kept. -/
structure Faithful (doc : Document) (view : View) : Prop where
  document : view.document = doc
  slots : view.cache.slots.length = doc.database.records.length
  kept : ∀ index text, view.cache.get? index = some text → doc.text? index = some text

section Steps

variable {doc : Document} {view : View}

theorem faithful_new (doc : Document) : Faithful doc (new doc) := by
  refine ⟨rfl, List.length_replicate, ?_⟩
  intro index text h
  rw [new, Cache.get?_new] at h
  cases h

/-- The text that a faithful view takes from its cache, or renders, is the text of the record. -/
theorem text_getOrRender_of_faithful (h : Faithful doc view) {index : Nat} {record : Json}
    (hrecord : doc.database.records[index]? = some record) :
    (view.cache.getOrRender index fun _ => doc.template.render record).text = doc.template.render record := by
  have htext : doc.text? index = some (doc.template.render record) := by
    rw [Document.text?, hrecord]
    rfl
  rw [Cache.text_getOrRender]
  cases hkept : view.cache.get? index with
  | none => rfl
  | some text => exact Option.some.inj ((h.kept index text hkept).symm.trans htext)

theorem faithful_render (h : Faithful doc view) (index : Nat) :
    (view.render index).1 = doc.text? index ∧ Faithful doc (view.render index).2 := by
  obtain ⟨hdocument, hslots, hkept⟩ := h
  cases hrecord : doc.database.records[index]? with
  | none =>
      have hnone : view.render index = (none, view) := by
        rw [render, hdocument, hrecord]
      rw [hnone, Document.text?, hrecord]
      exact ⟨rfl, hdocument, hslots, hkept⟩
  | some record =>
      have htext := text_getOrRender_of_faithful ⟨hdocument, hslots, hkept⟩ hrecord
      have hsome : view.render index =
          (some (view.cache.getOrRender index fun _ => doc.template.render record).text,
            { view with cache := (view.cache.getOrRender index fun _ => doc.template.render record).cache }) := by
        rw [render, hdocument, hrecord]
      rw [hsome, htext]
      refine ⟨by rw [Document.text?, hrecord]; rfl, hdocument, ?_, ?_⟩
      · exact (Cache.length_getOrRender _ _ _).trans hslots
      · intro other text hother
        rw [Cache.get?_getOrRender] at hother
        split at hother
        · -- The slot that this call has filled.
          rename_i hsame
          obtain ⟨rfl, _⟩ := hsame
          rw [htext] at hother
          rw [Document.text?, hrecord, ← hother]
          rfl
        · exact hkept other text hother

theorem faithful_renderAll (h : Faithful doc view) (indices : List Nat) :
    (view.renderAll indices).1 = indices.filterMap doc.text? ∧ Faithful doc (view.renderAll indices).2 := by
  induction indices generalizing view with
  | nil =>
      exact ⟨rfl, h⟩
  | cons index rest ih =>
      obtain ⟨hfirst, hview⟩ := faithful_render h index
      obtain ⟨hothers, hrest⟩ := ih hview
      refine ⟨?_, hrest⟩
      change (view.render index).1.toList ++ ((view.render index).2.renderAll rest).1 = _
      rw [hfirst, hothers, List.filterMap_cons]
      cases doc.text? index <;> rfl

theorem faithful_call (h : Faithful doc view) (call : Call) :
    (view.call call).1 = answerAnew doc call ∧ Faithful doc (view.call call).2 := by
  cases call with
  | render index =>
      obtain ⟨htext, hview⟩ := faithful_render h index
      exact ⟨congrArg Answer.text htext, hview⟩
  | renderAll indices =>
      obtain ⟨htexts, hview⟩ := faithful_renderAll h indices
      exact ⟨congrArg Answer.texts htexts, hview⟩

theorem faithful_run (h : Faithful doc view) (calls : List Call) :
    (view.run calls).1 = calls.map (answerAnew doc) ∧ Faithful doc (view.run calls).2 := by
  induction calls generalizing view with
  | nil =>
      exact ⟨rfl, h⟩
  | cons call rest ih =>
      obtain ⟨hfirst, hview⟩ := faithful_call h call
      obtain ⟨hothers, hrest⟩ := ih hview
      refine ⟨?_, hrest⟩
      change (view.call call).1 :: ((view.call call).2.run rest).1 = _
      rw [hfirst, hothers, List.map_cons]

end Steps

/-- **Rendering from the cache is rendering anew.**  Whatever has been asked before, a call is answered with the texts of
the records at its positions, as far as there are records.  There is one slot for each record, and a slot that is
filled holds the text of its record. -/
theorem run_eq_anew (doc : Document) (calls : List Call) :
    ((new doc).run calls).1 = calls.map (answerAnew doc) ∧ Faithful doc ((new doc).run calls).2 :=
  faithful_run (faithful_new doc) calls

end View
end RecordSearch
