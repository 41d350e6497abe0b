import Linkage.Text.Sorted
import Mathlib.Data.List.Nodup

namespace Linkage.Text

namespace Sorted

section Sets

variable {set other : List String}

theorem increasing_ofList (xs : List String) : (ofList xs).Pairwise (· < ·) := by
  have fold (rest done : List String) (h : done.Pairwise (· < ·)) :
      (rest.foldl (fun set x => insert x set) done).Pairwise (· < ·) := by
    induction rest generalizing done with
    | nil => exact h
    | cons x rest ih => exact ih _ (increasing_insert h)
  exact fold xs [] .nil

theorem eq_of_mem_iff (h : set.Pairwise (· < ·)) (h' : other.Pairwise (· < ·))
    (hmem : ∀ x, x ∈ set ↔ x ∈ other) : set = other := by
  have distinct {a b : String} (hlt : a < b) : a ≠ b := by
    rintro rfl
    exact String.lt_irrefl a hlt
  have hperm : set.Perm other :=
    (List.perm_ext_iff_of_nodup (h.imp distinct) (h'.imp distinct)).mpr hmem
  exact hperm.eq_of_pairwise (fun a b _ _ hab hba => absurd hba (String.lt_asymm hab)) h h'

end Sets

variable {α : Type} {key : String} {value : α} {entries : List (String × α)}

theorem find?_put (key other : String) (value : α) (entries : List (String × α)) :
    (put key value entries).find? (fun e => e.1 == other) =
      if key = other then some (key, value) else entries.find? fun e => e.1 == other := by
  induction entries with
  | nil =>
    by_cases h : key = other <;> simp [put, h]
  | cons e rest ih =>
    obtain ⟨k, v⟩ := e
    unfold put
    split
    · by_cases h : key = other <;> simp [h]
    · split
      · rename_i hk
        subst hk
        by_cases h : key = other <;> simp [h]
      · rename_i hne
        rw [List.find?_cons, List.find?_cons, ih]
        by_cases h : key = other
        · have hk : (k == other) = false := beq_false_of_ne fun hk => hne (h.trans hk.symm)
          simp [h, hk]
        · simp [h]

/-- A key has the value that it was given last. -/
theorem find?_table (other : String) (entries : List (String × α)) :
    (table entries).find? (fun e => e.1 == other) =
      entries.reverse.find? fun e => e.1 == other := by
  have fold (done rest : List (String × α)) :
      (rest.foldl (fun t e => put e.1 e.2 t) done).find? (fun e => e.1 == other) =
        (rest.reverse.find? fun e => e.1 == other).or (done.find? fun e => e.1 == other) := by
    induction rest generalizing done with
    | nil => rfl
    | cons e rest ih =>
      rw [List.foldl_cons, ih, find?_put, List.reverse_cons, List.find?_append, Option.or_assoc]
      obtain ⟨key, value⟩ := e
      by_cases h : key = other <;> simp [h]
  rw [table, fold, List.find?_nil, Option.or_none]

/-- A key after all the others is put at the end. -/
theorem put_last (h : ∀ e ∈ entries, e.1 < key) :
    put key value entries = entries ++ [(key, value)] := by
  induction entries with
  | nil => rfl
  | cons e rest ih =>
    obtain ⟨k, v⟩ := e
    obtain ⟨hk, hrest⟩ := List.forall_mem_cons.mp h
    have hlt : ¬ key < k := String.lt_asymm hk
    have hne : key ≠ k := fun he => String.lt_irrefl k (he ▸ hk)
    rw [put, if_neg hlt, if_neg hne, ih hrest, List.cons_append]

theorem put_put (key : String) (first second : α) (entries : List (String × α)) :
    put key second (put key first entries) = put key second entries := by
  induction entries with
  | nil => simp [put]
  | cons e rest ih =>
    obtain ⟨k, v⟩ := e
    by_cases hlt : key < k
    · simp [put, hlt]
    · by_cases heq : key = k
      · simp [put, heq]
      · simp [put, hlt, heq, ih]

theorem put_same (h : Increasing entries)
    (hfind : entries.find? (fun e => e.1 == key) = some (key, value)) :
    put key value entries = entries := by
  induction entries with
  | nil => cases hfind
  | cons e rest ih =>
    obtain ⟨k, v⟩ := e
    obtain ⟨hfirst, hrest⟩ := List.pairwise_cons.mp h
    by_cases heq : k = key
    · subst heq
      have hvalue : v = value := by simpa using hfind
      rw [← hvalue]
      rw [put, if_neg (String.lt_irrefl k), if_pos rfl]
    · rw [List.find?_cons_of_neg (by simpa using heq)] at hfind
      have hlt : k < key := hfirst key (List.mem_map_of_mem (List.mem_of_find?_eq_some hfind))
      rw [put, if_neg (String.lt_asymm hlt), if_neg (Ne.symm heq), ih hrest hfind]

theorem mem_keys_put {other : String} :
    other ∈ (put key value entries).map (·.1) ↔ other = key ∨ other ∈ entries.map (·.1) := by
  rw [keys_put, mem_insert]

/-- No key is lost. -/
theorem mem_keys_table {other : String} :
    other ∈ (table entries).map (·.1) ↔ other ∈ entries.map (·.1) := by
  have fold (done rest : List (String × α)) :
      other ∈ (rest.foldl (fun t e => put e.1 e.2 t) done).map (·.1) ↔
        other ∈ done.map (·.1) ∨ other ∈ rest.map (·.1) := by
    induction rest generalizing done with
    | nil => simp
    | cons e rest ih =>
      rw [List.foldl_cons, ih, mem_keys_put, List.map_cons, List.mem_cons, or_assoc,
        or_left_comm]
  rw [table, fold, List.map_nil, or_iff_right List.not_mem_nil]

theorem table_of_increasing (h : Increasing entries) : table entries = entries := by
  have fold (done rest : List (String × α)) (hinc : Increasing (done ++ rest)) :
      rest.foldl (fun t e => put e.1 e.2 t) done = done ++ rest := by
    induction rest generalizing done with
    | nil => simp
    | cons e rest ih =>
      have hbefore : ∀ d ∈ done, d.1 < e.1 := by
        rw [Increasing, List.map_append, List.pairwise_append] at hinc
        exact fun d hd => hinc.2.2 d.1 (List.mem_map_of_mem hd) e.1 (by simp)
      rw [List.foldl_cons, put_last hbefore, ih _ (by simpa using hinc), List.append_assoc]
      rfl
  exact fold [] entries h

end Sorted

namespace Table

variable {α β : Type} {t : Table α} {key : String} {value : α}

theorem find?_put (t : Table α) (key other : String) (value : α) :
    (t.put key value).find? other = if key = other then some value else t.find? other := by
  rw [find?, put, Sorted.find?_put]
  split <;> rfl

theorem put_put (t : Table α) (key : String) (first second : α) :
    (t.put key first).put key second = t.put key second :=
  Table.ext (Sorted.put_put key first second t.entries)

theorem put_same (h : t.find? key = some value) : t.put key value = t := by
  obtain ⟨⟨found, value⟩, hfind, rfl⟩ := Option.map_eq_some_iff.mp h
  have hfound := List.find?_some hfind
  obtain rfl : found = key := beq_iff_eq.mp hfound
  exact Table.ext (Sorted.put_same t.increasing hfind)

theorem isSome_find? : (t.find? key).isSome = true ↔ key ∈ t.keys := by
  simp [find?, keys, List.find?_isSome]

theorem mem_keys_ofList {entries : List (String × α)} :
    key ∈ (ofList entries).keys ↔ key ∈ entries.map (·.1) :=
  Sorted.mem_keys_table

@[simp] theorem keys_map (f : α → β) (t : Table α) : (t.map f).keys = t.keys := by
  simp [keys, map]

end Table

end Linkage.Text
