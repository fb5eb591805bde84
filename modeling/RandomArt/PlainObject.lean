import Mathlib.Data.List.Nodup

/-!
# Plain objects

A record that starts as an empty object literal and is filled by assignments to its keys. Its
own properties have distinct keys. The key `__proto__` is none of them: assigning to it sets
the prototype of the object, or does nothing.
-/

namespace RandomArt

structure PlainObject (α : Type) where
  entries : List (String × α)
  nodup_keys : (entries.map Prod.fst).Nodup

namespace PlainObject

variable {α β : Type}

def protoKey : String := "__proto__"

def empty : PlainObject α := ⟨[], List.nodup_nil⟩

/-- The names of the own properties. -/
def keys (object : PlainObject α) : List String := object.entries.map Prod.fst

/-- An own property. -/
def own (object : PlainObject α) (key : String) : Option α := object.entries.lookup key

/-- The entries once a key has been given a value. -/
def upsert (key : String) (value : α) : List (String × α) → List (String × α)
  | [] => [(key, value)]
  | entry :: rest =>
    if entry.1 = key then (key, value) :: rest else entry :: upsert key value rest

theorem mem_keys_upsert {key key' : String} {value : α} {entries : List (String × α)} :
    key' ∈ (upsert key value entries).map Prod.fst ↔
      key' = key ∨ key' ∈ entries.map Prod.fst := by
  induction entries with
  | nil => simp [upsert]
  | cons entry rest ih =>
    rw [upsert]
    split
    · next h => simp [h]
    · simp only [List.map_cons, List.mem_cons, ih]
      exact or_left_comm

theorem nodup_upsert {key : String} {value : α} {entries : List (String × α)}
    (h : (entries.map Prod.fst).Nodup) : ((upsert key value entries).map Prod.fst).Nodup := by
  induction entries with
  | nil => simp [upsert]
  | cons entry rest ih =>
    rw [List.map_cons, List.nodup_cons] at h
    rw [upsert]
    split
    · next heq =>
      rw [List.map_cons, List.nodup_cons]
      exact ⟨heq ▸ h.1, h.2⟩
    · next hne =>
      rw [List.map_cons, List.nodup_cons, mem_keys_upsert, not_or]
      exact ⟨⟨hne, h.1⟩, ih h.2⟩

theorem lookup_upsert_self (key : String) (value : α) (entries : List (String × α)) :
    (upsert key value entries).lookup key = some value := by
  induction entries with
  | nil => simp [upsert]
  | cons entry rest ih =>
    rw [upsert]
    split
    · simp
    · next hne => rw [List.lookup_cons, beq_false_of_ne (Ne.symm hne), ih]

theorem lookup_upsert_of_ne {key key' : String} (h : key' ≠ key) (value : α)
    (entries : List (String × α)) :
    (upsert key value entries).lookup key' = entries.lookup key' := by
  induction entries with
  | nil => simp [upsert, List.lookup_cons, beq_false_of_ne h]
  | cons entry rest ih =>
    rw [upsert]
    split
    · next heq =>
      have hne : (key' == entry.1) = false := beq_false_of_ne (heq ▸ h)
      rw [List.lookup_cons, List.lookup_cons, beq_false_of_ne h, hne]
    · rw [List.lookup_cons, List.lookup_cons, ih]

/-- `object[key] = value`. -/
def assign (object : PlainObject α) (key : String) (value : α) : PlainObject α :=
  if key = protoKey then object
  else ⟨upsert key value object.entries, nodup_upsert object.nodup_keys⟩

theorem mem_keys_assign {object : PlainObject α} {key key' : String} {value : α} :
    key' ∈ (object.assign key value).keys ↔
      (key' = key ∧ key ≠ protoKey) ∨ key' ∈ object.keys := by
  rw [assign]
  split
  · next h => simp [h]
  · next h => simp [keys, mem_keys_upsert, h]

theorem own_assign_self {object : PlainObject α} {key : String} (h : key ≠ protoKey) (value : α) :
    (object.assign key value).own key = some value := by
  rw [assign, if_neg h]
  exact lookup_upsert_self key value object.entries

theorem own_assign_of_ne {object : PlainObject α} {key key' : String} (h : key' ≠ key)
    (value : α) : (object.assign key value).own key' = object.own key' := by
  rw [assign]
  split
  · rfl
  · exact lookup_upsert_of_ne h value object.entries

theorem mem_keys_iff {object : PlainObject α} {key : String} :
    key ∈ object.keys ↔ (object.own key).isSome := by
  simp [keys, own, List.lookup_isSome_iff]

theorem mem_entries_of_own {object : PlainObject α} {key : String} {value : α}
    (h : object.own key = some value) : (key, value) ∈ object.entries := by
  obtain ⟨before, after, hentries, -⟩ := List.lookup_eq_some_iff.mp h
  rw [hentries]
  exact List.mem_append_right _ List.mem_cons_self

/-- The object after assignments in order. -/
def assignAll (object : PlainObject α) (assignments : List (String × α)) : PlainObject α :=
  assignments.foldl (fun object entry => object.assign entry.1 entry.2) object

theorem mem_keys_assignAll {object : PlainObject α} {assignments : List (String × α)}
    {key : String} :
    key ∈ (object.assignAll assignments).keys ↔
      (key ∈ assignments.map Prod.fst ∧ key ≠ protoKey) ∨ key ∈ object.keys := by
  induction assignments generalizing object with
  | nil => simp [assignAll]
  | cons entry rest ih =>
    have hstep : object.assignAll (entry :: rest) =
        (object.assign entry.1 entry.2).assignAll rest := rfl
    rw [hstep, ih, mem_keys_assign, List.map_cons, List.mem_cons]
    constructor
    · rintro (⟨hmem, hne⟩ | ⟨rfl, hne⟩ | hobject)
      · exact Or.inl ⟨Or.inr hmem, hne⟩
      · exact Or.inl ⟨Or.inl rfl, hne⟩
      · exact Or.inr hobject
    · rintro (⟨rfl | hmem, hne⟩ | hobject)
      · exact Or.inr (Or.inl ⟨rfl, hne⟩)
      · exact Or.inl ⟨hmem, hne⟩
      · exact Or.inr (Or.inr hobject)

theorem own_assignAll_of_notMem {object : PlainObject α} {assignments : List (String × α)}
    {key : String} (h : key ∉ assignments.map Prod.fst) :
    (object.assignAll assignments).own key = object.own key := by
  induction assignments generalizing object with
  | nil => rfl
  | cons entry rest ih =>
    rw [List.map_cons, List.mem_cons, not_or] at h
    exact (ih h.2).trans (own_assign_of_ne h.1 entry.2)

/-- What was assigned to distinct keys is found there. -/
theorem own_assignAll {object : PlainObject α} {assignments : List (String × α)}
    (hnodup : (assignments.map Prod.fst).Nodup) {key : String} {value : α}
    (hmem : (key, value) ∈ assignments) (hkey : key ≠ protoKey) :
    (object.assignAll assignments).own key = some value := by
  induction assignments generalizing object with
  | nil => cases hmem
  | cons entry rest ih =>
    rw [List.map_cons, List.nodup_cons] at hnodup
    have hstep : object.assignAll (entry :: rest) =
        (object.assign entry.1 entry.2).assignAll rest := rfl
    rw [hstep]
    rcases List.mem_cons.mp hmem with rfl | hrest
    · rw [own_assignAll_of_notMem hnodup.1, own_assign_self hkey]
    · exact ih hnodup.2 hrest

end PlainObject
end RandomArt
