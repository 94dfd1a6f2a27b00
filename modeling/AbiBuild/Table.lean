
namespace AbiBuild

abbrev Table (α : Type) := List (String × α)

namespace Table

def put (t : Table α) (key : String) (value : α) : Table α :=
  match t with
  | [] => [(key, value)]
  | (k, v) :: rest => if k = key then (k, value) :: rest else (k, v) :: put rest key value

def get? (t : Table α) (key : String) : Option α := t.lookup key

def keys (t : Table α) : List String := t.map Prod.fst

def update (t more : Table α) : Table α := more.foldl (fun t kv => put t kv.1 kv.2) t

def ofList (entries : List (String × α)) : Table α := update [] entries

theorem get?_put_self (t : Table α) (key : String) (value : α) :
    (put t key value).get? key = some value := by
  induction t with
  | nil => simp [put, get?]
  | cons kv rest ih =>
    obtain ⟨k, v⟩ := kv
    by_cases h : k = key
    · simp [put, get?, h]
    · have h' : (key == k) = false := by simpa using Ne.symm h
      simp only [put, h, if_false, get?, List.lookup_cons, h']
      exact ih

theorem get?_put_of_ne (t : Table α) {key other : String} (h : other ≠ key) (value : α) :
    (put t key value).get? other = t.get? other := by
  induction t with
  | nil => simp [put, get?, h]
  | cons kv rest ih =>
    obtain ⟨k, v⟩ := kv
    by_cases hk : k = key
    · subst hk
      have h' : (other == k) = false := by simpa using h
      simp [put, get?, List.lookup_cons, h']
    · by_cases ho : other = k
      · simp [put, get?, hk, ho]
      · have h' : (other == k) = false := by simpa using ho
        simp only [put, hk, if_false, get?, List.lookup_cons, h']
        exact ih

theorem keys_put (t : Table α) (key : String) (value : α) :
    (put t key value).keys = if key ∈ t.keys then t.keys else t.keys ++ [key] := by
  induction t with
  | nil => simp [put, keys]
  | cons kv rest ih =>
    obtain ⟨k, v⟩ := kv
    by_cases h : k = key
    · simp [put, keys, h]
    · have h' : key ≠ k := Ne.symm h
      simp only [keys] at ih
      by_cases hm : key ∈ rest.map Prod.fst <;> simp_all [put, keys]

end Table

end AbiBuild
