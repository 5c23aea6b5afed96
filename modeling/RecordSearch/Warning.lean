import RecordSearch.Error

/-!
# Warnings

Decoding a document passes over what it does not know, and says so.  A decoding gives its result, or the error that
ended it, together with the warnings given on the way.
-/

namespace RecordSearch

/-- What was passed over. -/
inductive Warning where
  /-- A member of a template that its kind does not have. -/
  | unusedInTemplate (name : String)
  /-- A member of a database. -/
  | unusedInDatabase (name : String)
  /-- A member of a document. -/
  | unusedInDocument (name : String)
  /-- An entry of the data that is no object. -/
  | ignoredData (name : String)
  /-- An entry among the fields that is neither a field nor a group. -/
  | ignoredEntry (entry : Json)
  /-- Criteria on a field that the selected modes do not show. -/
  | hiddenCriteria (document field : String)
deriving Repr, BEq

/-- The text of a warning. -/
def Warning.message : Warning → String
  | unusedInTemplate name => "unused key `" ++ name ++ "` in display string"
  | unusedInDatabase name => "unused key `" ++ name ++ "` in json database"
  | unusedInDocument name => "unused key `" ++ name ++ "` in document"
  | ignoredData name => "invalid data element " ++ name ++ ": should be a json object, was ignored"
  | ignoredEntry entry =>
      "ignored entry " ++ entry.compact ++ " in `fields`: expected a field or a group of fields"
  | hiddenCriteria document field =>
      "`" ++ document ++ "`: criteria on `" ++ field ++ "` ignored, field hidden by the selected modes"

/-- The warnings given on the way to a result or an error. -/
structure Decoding (α : Type) where
  warnings : List Warning
  result : Except Error α

namespace Decoding

variable {α β γ : Type}

/-- A result without warnings. -/
def ofExcept (result : Except Error α) : Decoding α :=
  ⟨[], result⟩

/-- Warnings alone. -/
def warn (warnings : List Warning) : Decoding Unit :=
  ⟨warnings, .ok ()⟩

/-- An error without warnings. -/
def fail (error : Error) : Decoding α :=
  ⟨[], .error error⟩

/-- A second decoding after the first one, unless that failed. -/
def andThen (first : Decoding α) (second : α → Decoding β) : Decoding β :=
  match first.result with
  | .error error => ⟨first.warnings, .error error⟩
  | .ok a => ⟨first.warnings ++ (second a).warnings, (second a).result⟩

instance : Monad Decoding where
  pure a := ⟨[], .ok a⟩
  bind := andThen

instance : MonadLift (Except Error) Decoding where
  monadLift := ofExcept

theorem ok_bind (warnings : List Warning) (a : α) (second : α → Decoding β) :
    (⟨warnings, .ok a⟩ : Decoding α) >>= second = ⟨warnings ++ (second a).warnings, (second a).result⟩ := rfl

theorem pure_eq_ok_iff (a b : α) (warnings : List Warning) :
    (pure a : Decoding α) = ⟨warnings, .ok b⟩ ↔ warnings = [] ∧ a = b := by
  constructor
  · intro h
    cases h
    exact ⟨rfl, rfl⟩
  · rintro ⟨rfl, rfl⟩
    rfl

theorem ofExcept_eq_ok_iff (result : Except Error α) (a : α) (warnings : List Warning) :
    ofExcept result = ⟨warnings, .ok a⟩ ↔ warnings = [] ∧ result = .ok a := by
  simp only [ofExcept, mk.injEq]
  exact and_congr_left fun _ => eq_comm

/-- A decoding after another one has a result exactly if both have; the warnings follow one another. -/
theorem bind_eq_ok_iff (first : Decoding α) (second : α → Decoding β) (b : β) (warnings : List Warning) :
    first >>= second = ⟨warnings, .ok b⟩ ↔
      ∃ a before after, first = ⟨before, .ok a⟩ ∧ second a = ⟨after, .ok b⟩ ∧ warnings = before ++ after := by
  obtain ⟨given, result⟩ := first
  cases result with
  | error e =>
      constructor
      · intro h
        cases h
      · rintro ⟨a, before, after, h, _⟩
        cases h
  | ok a =>
      constructor
      · intro h
        cases hsecond : second a with
        | mk after result =>
            rw [ok_bind, hsecond] at h
            cases h
            exact ⟨a, given, after, rfl, hsecond, rfl⟩
      · rintro ⟨a', before, after, ha, hsecond, rfl⟩
        cases ha
        rw [ok_bind, hsecond]

theorem bind_pure_eq_ok_iff (first : Decoding α) (f : α → β) (b : β) (warnings : List Warning) :
    (first >>= fun a => pure (f a)) = ⟨warnings, .ok b⟩ ↔ ∃ a, first = ⟨warnings, .ok a⟩ ∧ f a = b := by
  simp only [bind_eq_ok_iff, pure_eq_ok_iff]
  constructor
  · rintro ⟨a, before, _, h, ⟨rfl, hb⟩, rfl⟩
    rw [List.append_nil]
    exact ⟨a, h, hb⟩
  · rintro ⟨a, h, hb⟩
    exact ⟨a, warnings, [], h, ⟨rfl, hb⟩, (List.append_nil _).symm⟩

/-- Two decodings one after the other, the results of which are put together. -/
theorem bind_bind_pure_eq_ok_iff (first : Decoding α) (second : Decoding β) (f : α → β → γ) (c : γ)
    (warnings : List Warning) :
    (first >>= fun a => second >>= fun b => pure (f a b)) = ⟨warnings, .ok c⟩ ↔
      ∃ a before b after, first = ⟨before, .ok a⟩ ∧ second = ⟨after, .ok b⟩ ∧ f a b = c ∧
        warnings = before ++ after := by
  simp only [bind_eq_ok_iff first, bind_pure_eq_ok_iff]
  constructor
  · rintro ⟨a, before, after, ha, ⟨b, hb, hc⟩, hwarnings⟩
    exact ⟨a, before, b, after, ha, hb, hc, hwarnings⟩
  · rintro ⟨a, before, b, after, ha, hb, hc, hwarnings⟩
    exact ⟨a, before, after, ha, ⟨b, hb, hc⟩, hwarnings⟩

theorem warn_bind_eq_ok_iff (given : List Warning) (second : Unit → Decoding β) (b : β) (warnings : List Warning) :
    warn given >>= second = ⟨warnings, .ok b⟩ ↔
      ∃ after, second () = ⟨after, .ok b⟩ ∧ warnings = given ++ after := by
  rw [bind_eq_ok_iff]
  constructor
  · rintro ⟨_, before, after, h, hsecond, hwarnings⟩
    cases h
    exact ⟨after, hsecond, hwarnings⟩
  · rintro ⟨after, hsecond, hwarnings⟩
    exact ⟨(), given, after, rfl, hsecond, hwarnings⟩

/-- A result that needs no decoding gives no warnings. -/
theorem lift_bind_eq_ok_iff (result : Except Error α) (second : α → Decoding β) (b : β) (warnings : List Warning) :
    liftM result >>= second = ⟨warnings, .ok b⟩ ↔ ∃ a, result = .ok a ∧ second a = ⟨warnings, .ok b⟩ := by
  rw [bind_eq_ok_iff]
  constructor
  · rintro ⟨a, before, after, h, hsecond, rfl⟩
    obtain ⟨rfl, ha⟩ := (ofExcept_eq_ok_iff _ _ _).mp h
    exact ⟨a, ha, hsecond⟩
  · rintro ⟨a, rfl, hsecond⟩
    exact ⟨a, [], warnings, rfl, hsecond, rfl⟩

end Decoding
end RecordSearch
