/-!
Sets of texts and tables keyed by texts, both in code point order. A set is a strictly increasing
list. A table has strictly increasing keys, and a later entry replaces an earlier one.
-/

namespace Linkage.Text

namespace Sorted

def insert (x : String) : List String → List String
  | [] => [x]
  | y :: ys => if x < y then x :: y :: ys else if x = y then y :: ys else y :: insert x ys

def ofList (xs : List String) : List String := xs.foldl (fun set x => insert x set) []

/-- Gives a key its value in a table, in place of the value it had. -/
def put {α : Type _} (key : String) (value : α) : List (String × α) → List (String × α)
  | [] => [(key, value)]
  | (k, v) :: rest =>
    if key < k then (key, value) :: (k, v) :: rest
    else if key = k then (key, value) :: rest
    else (k, v) :: put key value rest

/-- The listed entries by key; of two with one key the later counts. -/
def table {α : Type _} (entries : List (String × α)) : List (String × α) :=
  entries.foldl (fun t e => put e.1 e.2 t) []

/-- A set lists its members and nothing else. -/
@[simp] theorem mem_insert {x y : String} {set : List String} :
    y ∈ insert x set ↔ y = x ∨ y ∈ set := by
  induction set with
  | nil => simp [insert]
  | cons z zs ih =>
    unfold insert
    split
    · simp
    · split
      · next h => subst h; simp
      · simp only [List.mem_cons, ih]; grind

@[simp] theorem mem_ofList {y : String} {xs : List String} : y ∈ ofList xs ↔ y ∈ xs := by
  have fold (xs set : List String) :
      y ∈ xs.foldl (fun set x => insert x set) set ↔ y ∈ xs ∨ y ∈ set := by
    induction xs generalizing set with
    | nil => simp
    | cons x xs ih => simp only [List.foldl_cons, ih, mem_insert, List.mem_cons]; grind
  simp [ofList, fold]

theorem increasing_insert {x : String} {set : List String} (h : set.Pairwise (· < ·)) :
    (insert x set).Pairwise (· < ·) := by
  induction h with
  | nil => exact List.pairwise_singleton _ _
  | @cons y ys hfirst hrest ih =>
    unfold insert
    split
    · rename_i hlt
      refine List.Pairwise.cons (fun z hz => ?_) (.cons hfirst hrest)
      rcases List.mem_cons.mp hz with rfl | hz
      · exact hlt
      · exact String.lt_trans hlt (hfirst z hz)
    · rename_i hnot
      split
      · exact .cons hfirst hrest
      · rename_i hne
        refine List.Pairwise.cons (fun z hz => ?_) ih
        rcases mem_insert.mp hz with rfl | hz
        · have hle : y ≤ z := String.not_lt.mp hnot
          exact String.not_le.mp fun hge => hne (String.le_antisymm hge hle)
        · exact hfirst z hz

section Tables

variable {α : Type _} {key : String} {value : α} {entries : List (String × α)}

def Increasing (entries : List (String × α)) : Prop := (entries.map (·.1)).Pairwise (· < ·)

instance : Decidable (Increasing entries) := inferInstanceAs (Decidable (List.Pairwise _ _))

/-- The keys of a table are a set, to which a put adds. -/
theorem keys_put : (put key value entries).map (·.1) = insert key (entries.map (·.1)) := by
  induction entries with
  | nil => rfl
  | cons e rest ih =>
    obtain ⟨k, v⟩ := e
    rw [put, List.map_cons, insert]
    split
    · rfl
    · split
      · rename_i heq
        rw [heq]
        rfl
      · rw [List.map_cons, ih]

theorem Increasing.put (h : Increasing entries) (key : String) (value : α) :
    Increasing (put key value entries) := by
  rw [Increasing, keys_put]
  exact increasing_insert h

theorem increasing_table (entries : List (String × α)) : Increasing (table entries) := by
  have fold (done rest : List (String × α)) (h : Increasing done) :
      Increasing (rest.foldl (fun t e => put e.1 e.2 t) done) := by
    induction rest generalizing done with
    | nil => exact h
    | cons e rest ih => exact ih _ (h.put e.1 e.2)
  exact fold [] entries .nil

end Tables

end Sorted

/-- A table in which each key is found once, and in order. -/
@[ext] structure Table (α : Type) where
  entries : List (String × α)
  increasing : Sorted.Increasing entries
  deriving DecidableEq, Repr

namespace Table

variable {α β : Type}

def empty : Table α := ⟨[], .nil⟩

def ofList (entries : List (String × α)) : Table α :=
  ⟨Sorted.table entries, Sorted.increasing_table entries⟩

def put (t : Table α) (key : String) (value : α) : Table α :=
  ⟨Sorted.put key value t.entries, t.increasing.put key value⟩

def find? (t : Table α) (key : String) : Option α :=
  (t.entries.find? fun e => e.1 == key).map (·.2)

def keys (t : Table α) : List String := t.entries.map (·.1)

def map (f : α → β) (t : Table α) : Table β where
  entries := t.entries.map fun e => (e.1, f e.2)
  increasing := by
    rw [Sorted.Increasing, List.map_map]
    exact t.increasing

end Table

end Linkage.Text
