import RecordSearch.Json.Binary64

/-!
# JSON values

A value is a tree whose leaves are nulls, booleans, numbers and strings.  Members of an object keep the order in which
they were first written, and a name written twice keeps its first place and its last value.
-/

namespace RecordSearch

/-- A JSON number: an integer of 64 bits with sign, an integer from `2 ^ 63` on that still fits in 64 bits, or a
binary64 number. -/
inductive Number where
  | int (value : Int64)
  | wide (value : UInt64)
  | float (value : Binary64)
deriving DecidableEq, Repr, Inhabited

/-- A JSON value. -/
inductive Json where
  | null
  | bool (value : Bool)
  | number (value : Number)
  | string (value : String)
  | array (items : List Json)
  | object (members : List (String × Json))
deriving Repr, BEq, Inhabited

/-- The members of an object, in order. -/
abbrev Members := List (String × Json)

namespace Json

/-- An integer of 64 bits with sign. -/
abbrev int (value : Int64) : Json :=
  .number (.int value)

/-- The value is an object. -/
def isObject : Json → Bool
  | .object _ => true
  | _ => false

end Json

namespace Members

/-- The names of the members, in order. -/
def names (members : List (String × α)) : List String :=
  members.map (·.1)

/-- The value of the member of this name. -/
def get? (name : String) : List (String × α) → Option α
  | [] => none
  | (n, v) :: rest => if n = name then some v else get? name rest

/-- Some member has this name. -/
def has (name : String) (members : List (String × α)) : Bool :=
  (get? name members).isSome

/-- The members with `value` under `name`: in the place of the member of that name, or else at the end. -/
def insert (name : String) (value : α) : List (String × α) → List (String × α)
  | [] => [(name, value)]
  | (n, v) :: rest => if n = name then (n, value) :: rest else (n, v) :: insert name value rest

/-- The members inserted one after the other. -/
def ofList (members : List (String × α)) : List (String × α) :=
  members.foldl (fun acc (n, v) => insert n v acc) []

/-- The members without the one of this name. -/
def erase (name : String) (members : List (String × α)) : List (String × α) :=
  members.filter (·.1 != name)

@[simp] theorem names_nil : names ([] : List (String × α)) = [] := rfl

@[simp] theorem names_cons (m : String × α) (members : List (String × α)) :
    names (m :: members) = m.1 :: names members := rfl

@[simp] theorem get?_nil (name : String) : get? name ([] : List (String × α)) = none := rfl

theorem get?_cons (name : String) (m : String × α) (members : List (String × α)) :
    get? name (m :: members) = if m.1 = name then some m.2 else get? name members := rfl

theorem insert_nil (name : String) (value : α) : insert name value [] = [(name, value)] := rfl

theorem insert_cons (name : String) (value : α) (m : String × α) (members : List (String × α)) :
    insert name value (m :: members) =
      if m.1 = name then (m.1, value) :: members else m :: insert name value members := rfl

/-- A member that was just inserted is found, and the others are found as before. -/
theorem get?_insert (name other : String) (value : α) (members : List (String × α)) :
    get? other (insert name value members) = if name = other then some value else get? other members := by
  induction members with
  | nil => simp [insert_nil, get?_cons]
  | cons m rest ih =>
      obtain ⟨n, v⟩ := m
      by_cases h : n = name
      · subst h
        by_cases ho : n = other <;> simp [insert_cons, get?_cons, ho]
      · by_cases ho : n = other
        · subst ho
          simp [insert_cons, get?_cons, h, Ne.symm h]
        · simp [insert_cons, get?_cons, h, ho, ih]

/-- Insertion leaves the names as they are, but for a new name at the end. -/
theorem names_insert (name : String) (value : α) (members : List (String × α)) :
    names (insert name value members) =
      if name ∈ names members then names members else names members ++ [name] := by
  induction members with
  | nil => simp [insert_nil]
  | cons m rest ih =>
      obtain ⟨n, v⟩ := m
      by_cases h : n = name
      · simp [insert_cons, h]
      · have h' : name ≠ n := fun e => h e.symm
        by_cases hr : name ∈ names rest <;> simp [insert_cons, h, h', ih, hr]

/-- Exactly the names that do not occur are looked up in vain. -/
theorem get?_eq_none_iff (name : String) (members : List (String × α)) :
    get? name members = none ↔ name ∉ names members := by
  induction members with
  | nil => simp
  | cons m rest ih =>
      obtain ⟨n, v⟩ := m
      by_cases h : n = name
      · simp [get?_cons, h]
      · simp [get?_cons, h, ih, Ne.symm h]

/-- What is found under a name is the value of a member of that name. -/
theorem mem_of_get? {name : String} {value : α} {members : List (String × α)} (h : get? name members = some value) :
    (name, value) ∈ members := by
  induction members with
  | nil => cases h
  | cons m rest ih =>
      obtain ⟨n, v⟩ := m
      by_cases hn : n = name
      · obtain rfl : v = value := by
          simpa [get?_cons, hn] using h
        rw [hn]
        exact List.mem_cons_self
      · exact List.mem_cons_of_mem _ (ih (by simpa [get?_cons, hn] using h))

/-- Members are looked up in the first list, and then in the second one. -/
theorem get?_append (name : String) (first second : List (String × α)) :
    get? name (first ++ second) = (get? name first).or (get? name second) := by
  induction first with
  | nil => rfl
  | cons m rest ih =>
      obtain ⟨n, v⟩ := m
      by_cases h : n = name
      · simp [get?_cons, h]
      · simp [get?_cons, h, ih]

/-- A member is found exactly under the names that occur. -/
theorem has_iff (name : String) (members : List (String × α)) :
    has name members = true ↔ name ∈ names members := by
  rw [has, Option.isSome_iff_ne_none, ne_eq, get?_eq_none_iff, Decidable.not_not]

end Members
end RecordSearch
