import Mathlib.Order.Lattice
import Mathlib.Data.List.Lookmap
import Mathlib.Data.List.Perm.Basic

set_option autoImplicit false

namespace OrderedMap

variable {κ α : Type} [LinearOrder κ]

/-- The entries of a `std::map`: keys strictly ascend. -/
def Ascending (entries : List (κ × α)) : Prop :=
  entries.Pairwise (fun left right => left.1 < right.1)

/-- `m[key] = value` on the entries of a map. -/
def insertEntry (key : κ) (value : α) : List (κ × α) → List (κ × α)
  | [] => [(key, value)]
  | (other, old) :: rest =>
      if key < other then (key, value) :: (other, old) :: rest
      else if key = other then (key, value) :: rest
      else (other, old) :: insertEntry key value rest

/-- A sequence of assignments, the last one to a key winning. -/
def insertAll (assignments entries : List (κ × α)) : List (κ × α) :=
  assignments.foldl (fun entries entry => insertEntry entry.1 entry.2 entries) entries

@[simp] theorem insertAll_nil (entries : List (κ × α)) : insertAll [] entries = entries := rfl

@[simp] theorem insertAll_cons (entry : κ × α) (assignments entries : List (κ × α)) :
    insertAll (entry :: assignments) entries =
      insertAll assignments (insertEntry entry.1 entry.2 entries) := rfl

theorem mem_insertEntry {key : κ} {value : α} {entry : κ × α} {entries : List (κ × α)}
    (inside : entry ∈ insertEntry key value entries) : entry = (key, value) ∨ entry ∈ entries := by
  induction entries with
  | nil => exact Or.inl (by simpa [insertEntry] using inside)
  | cons head rest ih =>
      obtain ⟨other, old⟩ := head
      simp only [insertEntry] at inside
      split at inside
      · simpa using inside
      · split at inside
        · rcases List.mem_cons.mp inside with same | later
          · exact Or.inl same
          · exact Or.inr (List.mem_cons_of_mem _ later)
        · rcases List.mem_cons.mp inside with same | later
          · exact Or.inr (by simp [same])
          · exact (ih later).imp id (List.mem_cons_of_mem _)

theorem Ascending.insertEntry {entries : List (κ × α)} (ascending : Ascending entries)
    (key : κ) (value : α) : Ascending (insertEntry key value entries) := by
  induction entries with
  | nil => simp [OrderedMap.insertEntry, Ascending]
  | cons head rest ih =>
      obtain ⟨other, old⟩ := head
      obtain ⟨below, tail⟩ := List.pairwise_cons.mp ascending
      simp only [OrderedMap.insertEntry]
      split
      · rename_i less
        refine List.pairwise_cons.mpr ⟨?_, ascending⟩
        intro entry inside
        rcases List.mem_cons.mp inside with rfl | later
        · exact less
        · exact lt_trans less (below entry later)
      · rename_i notLess
        split
        · rename_i same
          subst same
          exact List.pairwise_cons.mpr ⟨below, tail⟩
        · rename_i different
          refine List.pairwise_cons.mpr ⟨?_, ih tail⟩
          intro entry inside
          rcases mem_insertEntry inside with rfl | later
          · exact lt_of_le_of_ne (not_lt.mp notLess) (Ne.symm different)
          · exact below entry later

/-! ### Lookup -/

section Lookup

variable [BEq κ] [LawfulBEq κ]

@[simp] theorem lookup_insertEntry_self (key : κ) (value : α) (entries : List (κ × α)) :
    (insertEntry key value entries).lookup key = some value := by
  induction entries with
  | nil => simp [insertEntry]
  | cons head rest ih =>
      obtain ⟨other, old⟩ := head
      simp only [insertEntry]
      split
      · simp
      · split
        · simp
        · rename_i different
          simp [List.lookup_cons, beq_eq_false_iff_ne.mpr different, ih]

theorem lookup_insertEntry_of_ne {key wanted : κ} (different : wanted ≠ key) (value : α)
    (entries : List (κ × α)) :
    (insertEntry key value entries).lookup wanted = entries.lookup wanted := by
  have skip : (wanted == key) = false := beq_eq_false_iff_ne.mpr different
  induction entries with
  | nil => simp [insertEntry, List.lookup_cons, skip]
  | cons head rest ih =>
      obtain ⟨other, old⟩ := head
      simp only [insertEntry]
      split
      · simp [List.lookup_cons, skip]
      · split
        · rename_i same
          subst same
          simp [List.lookup_cons, skip]
        · simp [List.lookup_cons, ih]

theorem lookup_insertEntry (key wanted : κ) (value : α) (entries : List (κ × α)) :
    (insertEntry key value entries).lookup wanted =
      if wanted = key then some value else entries.lookup wanted := by
  split
  · rename_i same
    rw [same, lookup_insertEntry_self]
  · rename_i different
    exact lookup_insertEntry_of_ne different value entries

theorem lookup_eq_some_of_mem {entries : List (κ × α)} (ascending : Ascending entries)
    {key : κ} {value : α} (inside : (key, value) ∈ entries) :
    entries.lookup key = some value := by
  induction entries with
  | nil => simp at inside
  | cons head rest ih =>
      obtain ⟨other, old⟩ := head
      obtain ⟨below, tail⟩ := List.pairwise_cons.mp ascending
      rcases List.mem_cons.mp inside with same | later
      · simp [← same]
      · have different : (key == other) = false :=
          beq_eq_false_iff_ne.mpr (ne_of_gt (below _ later))
        simp [List.lookup_cons, different, ih tail later]

omit [LinearOrder κ] in
theorem mem_of_lookup_eq_some {entries : List (κ × α)} {key : κ} {value : α}
    (found : entries.lookup key = some value) : (key, value) ∈ entries := by
  induction entries with
  | nil => simp at found
  | cons head rest ih =>
      obtain ⟨other, old⟩ := head
      rw [List.lookup_cons] at found
      split at found
      · rename_i same
        have equal : key = other := by simpa using same
        have stored : old = value := by simpa using found
        simp [equal, stored]
      · exact List.mem_cons_of_mem _ (ih found)

end Lookup

/-! ### Order of the entries -/

theorem insertEntry_of_above {entries : List (κ × α)} {key : κ} (value : α)
    (above : ∀ entry ∈ entries, entry.1 < key) :
    insertEntry key value entries = entries ++ [(key, value)] := by
  induction entries with
  | nil => rfl
  | cons head rest ih =>
      have less := above head (by simp)
      have notLess : ¬ key < head.1 := not_lt.mpr (le_of_lt less)
      simp only [insertEntry, notLess, ne_of_gt less, ↓reduceIte, List.cons_append,
        ih (fun entry inside => above entry (List.mem_cons_of_mem _ inside))]

/-- Assignments whose keys ascend, all above the entries, are appended in order. -/
theorem insertAll_of_ascending {entries assignments : List (κ × α)}
    (ascending : Ascending (entries ++ assignments)) :
    insertAll assignments entries = entries ++ assignments := by
  induction assignments generalizing entries with
  | nil => simp
  | cons entry rest ih =>
      have above : ∀ old ∈ entries, old.1 < entry.1 := by
        intro old inside
        exact (List.pairwise_append.mp ascending).2.2 old inside entry (by simp)
      rw [insertAll_cons, insertEntry_of_above _ above]
      have regroup : entries ++ [(entry.1, entry.2)] ++ rest = entries ++ entry :: rest := by simp
      rw [ih (by rw [regroup]; exact ascending), regroup]

theorem insertEntry_perm {entries : List (κ × α)} {key : κ} (value : α)
    (fresh : key ∉ entries.map Prod.fst) :
    (insertEntry key value entries).Perm ((key, value) :: entries) := by
  induction entries with
  | nil => simp [insertEntry]
  | cons head rest ih =>
      simp only [List.map_cons, List.mem_cons, not_or] at fresh
      simp only [insertEntry, fresh.1, ↓reduceIte]
      split
      · exact List.Perm.refl _
      · exact ((ih fresh.2).cons head).trans (List.Perm.swap _ _ _)

/-- Assignments to pairwise distinct keys are only sorted. -/
theorem insertAll_perm {entries assignments : List (κ × α)}
    (distinct : ((entries ++ assignments).map Prod.fst).Nodup) :
    (insertAll assignments entries).Perm (entries ++ assignments) := by
  induction assignments generalizing entries with
  | nil => simp
  | cons entry rest ih =>
      have moved : ((entry :: entries ++ rest).map Prod.fst).Nodup := by
        refine (List.Perm.nodup_iff ?_).mp distinct
        exact (List.perm_middle (a := entry)).map Prod.fst
      have fresh : entry.1 ∉ entries.map Prod.fst := by
        simp only [List.cons_append, List.map_cons, List.nodup_cons, List.map_append,
          List.mem_append, not_or] at moved
        exact moved.1.1
      have placed := insertEntry_perm entry.2 fresh
      have next : ((insertEntry entry.1 entry.2 entries ++ rest).map Prod.fst).Nodup :=
        (List.Perm.nodup_iff ((placed.append_right rest).map Prod.fst)).mpr moved
      calc
        insertAll (entry :: rest) entries = insertAll rest (insertEntry entry.1 entry.2 entries) := rfl
        List.Perm _ (insertEntry entry.1 entry.2 entries ++ rest) := ih next
        List.Perm _ (entry :: entries ++ rest) := placed.append_right rest
        List.Perm _ (entries ++ entry :: rest) := List.perm_middle.symm

theorem Ascending.insertAll {entries : List (κ × α)} (ascending : Ascending entries)
    (assignments : List (κ × α)) : Ascending (insertAll assignments entries) := by
  induction assignments generalizing entries with
  | nil => exact ascending
  | cons entry rest ih => exact ih (ascending.insertEntry entry.1 entry.2)

theorem Ascending.nodup {entries : List (κ × α)} (ascending : Ascending entries) :
    (entries.map Prod.fst).Nodup := by
  rw [List.nodup_iff_pairwise_ne, List.pairwise_map]
  exact ascending.imp fun less => ne_of_lt less

theorem mem_insertAll {assignments entries : List (κ × α)} {entry : κ × α}
    (inside : entry ∈ insertAll assignments entries) : entry ∈ assignments ∨ entry ∈ entries := by
  induction assignments generalizing entries with
  | nil => exact .inr inside
  | cons first rest ih =>
      rcases ih inside with later | before
      · exact .inl (List.mem_cons_of_mem _ later)
      · rcases mem_insertEntry before with same | old
        · rw [same]
          exact .inl List.mem_cons_self
        · exact .inr old

/-- No assignment is lost exactly when the keys are pairwise distinct. -/
theorem insertAll_length_iff (assignments : List (κ × α)) :
    (insertAll assignments []).length = assignments.length ↔ (assignments.map Prod.fst).Nodup := by
  constructor
  · intro length
    have ascending : Ascending (insertAll assignments []) := Ascending.insertAll List.Pairwise.nil _
    have inside : (insertAll assignments []).map Prod.fst ⊆ assignments.map Prod.fst := by
      apply List.map_subset
      intro entry member
      exact (mem_insertAll member).resolve_right (List.not_mem_nil)
    have perm := (List.subperm_of_subset ascending.nodup inside).perm_of_length_le (by simp [length])
    exact perm.nodup_iff.mp ascending.nodup
  · intro distinct
    have perm : (insertAll assignments []).Perm ([] ++ assignments) := insertAll_perm distinct
    exact perm.length_eq

theorem lookup_insertAll [BEq κ] [LawfulBEq κ] {assignments : List (κ × α)}
    (distinct : (assignments.map Prod.fst).Nodup) {entry : κ × α} (inside : entry ∈ assignments) :
    (insertAll assignments []).lookup entry.1 = some entry.2 := by
  have perm : (insertAll assignments []).Perm ([] ++ assignments) := insertAll_perm distinct
  exact lookup_eq_some_of_mem (Ascending.insertAll List.Pairwise.nil _) (perm.mem_iff.mpr inside)

/-- Where one entry is left the last assignment has made it. -/
theorem last_of_insertAll [BEq κ] [LawfulBEq κ] {assignments : List (κ × α)} {last entry : κ × α}
    (ends : assignments.getLast? = some last) (single : insertAll assignments [] = [entry]) :
    last = entry := by
  obtain ⟨before, rfl⟩ := List.getLast?_eq_some_iff.mp ends
  have set : insertAll (before ++ [last]) [] = insertEntry last.1 last.2 (insertAll before []) := by
    rw [insertAll, insertAll, List.foldl_append]
    rfl
  have found := lookup_insertEntry_self last.1 last.2 (insertAll before [])
  rw [← set, single] at found
  exact List.mem_singleton.mp (mem_of_lookup_eq_some found)

theorem lookup_insertAll_eq [BEq κ] [LawfulBEq κ] {assignments : List (κ × α)}
    (distinct : (assignments.map Prod.fst).Nodup) (key : κ) :
    (insertAll assignments []).lookup key = assignments.lookup key := by
  cases wanted : assignments.lookup key with
  | some value => exact lookup_insertAll distinct (mem_of_lookup_eq_some wanted)
  | none =>
      cases stored : (insertAll assignments []).lookup key with
      | none => rfl
      | some value =>
          have assigned := (mem_insertAll (mem_of_lookup_eq_some stored)).resolve_right
            List.not_mem_nil
          have apart := List.lookup_eq_none_iff.mp wanted (key, value) assigned
          simp at apart

/-! ### Writes in a row -/

/-- Where something hits there is a last hit. -/
theorem exists_last {ι : Type} (hit : ι → Bool) {xs : List ι} {x : ι} (inside : x ∈ xs)
    (hits : hit x = true) :
    ∃ last ∈ xs, xs.reverse.find? hit = some last ∧ hit last = true := by
  cases found : xs.reverse.find? hit with
  | none => exact absurd hits (List.find?_eq_none.mp found x (List.mem_reverse.mpr inside))
  | some last =>
      have member := List.mem_reverse.mp (List.mem_of_find?_eq_some found)
      exact ⟨last, member, rfl, List.find?_some found⟩

/-- When a write is read back where it hits and changes nothing elsewhere, the last write that hits
is the one read. -/
theorem read_foldl {σ ι β : Type} (read : σ → Option β) {write : σ → ι → σ} {hit : ι → Bool}
    (value : ι → β)
    (step : ∀ state x, read (write state x) = if hit x then some (value x) else read state)
    (xs : List ι) (state : σ) :
    read (xs.foldl write state) = ((xs.reverse.find? hit).map value).or (read state) := by
  induction xs generalizing state with
  | nil => rfl
  | cons x rest ih =>
      rw [List.foldl_cons, ih, step, List.reverse_cons, List.find?_append]
      cases rest.reverse.find? hit with
      | some later => rfl
      | none => cases hits : hit x <;> simp [hits]

/-- A state that each write either replaces or leaves alone holds the last replacement. -/
theorem foldl_last {σ ι β : Type} (read : σ → β) {write : σ → ι → σ} (value : ι → Option β)
    (step : ∀ state x, read (write state x) = (value x).getD (read state)) (xs : List ι) (state : σ) :
    read (xs.foldl write state) = (xs.filterMap value).getLast?.getD (read state) := by
  induction xs generalizing state with
  | nil => rfl
  | cons x rest ih =>
      rw [List.foldl_cons, ih, step, List.filterMap_cons]
      cases value x with
      | none => rfl
      | some new => rw [List.getLast?_cons, Option.getD_some, Option.getD_some]

end OrderedMap

/-- A `std::map` whose representation invariant travels with it. -/
structure OrderedMap (κ α : Type) [LinearOrder κ] where
  entries : List (κ × α)
  ascending : OrderedMap.Ascending entries

namespace OrderedMap

variable {κ α : Type} [LinearOrder κ]

def empty : OrderedMap κ α := ⟨[], List.Pairwise.nil⟩

/-- `m[key] = value`. -/
def insert (m : OrderedMap κ α) (key : κ) (value : α) : OrderedMap κ α :=
  ⟨insertEntry key value m.entries, m.ascending.insertEntry key value⟩

def find? (m : OrderedMap κ α) (key : κ) : Option α := m.entries.lookup key

def contains (m : OrderedMap κ α) (key : κ) : Bool := (m.find? key).isSome

def keys (m : OrderedMap κ α) : List κ := m.entries.map Prod.fst

@[ext] theorem ext {m n : OrderedMap κ α} (entries : m.entries = n.entries) : m = n := by
  cases m
  cases n
  cases entries
  rfl

theorem entries_foldl_insert (assignments : List (κ × α)) (m : OrderedMap κ α) :
    (assignments.foldl (fun m entry => m.insert entry.1 entry.2) m).entries =
      insertAll assignments m.entries := by
  induction assignments generalizing m with
  | nil => rfl
  | cons entry rest ih => exact ih _

/-- A map is made again of its entries. -/
theorem foldl_insert_entries (m : OrderedMap κ α) :
    m.entries.foldl (fun m entry => m.insert entry.1 entry.2) empty = m := by
  ext1
  rw [entries_foldl_insert]
  exact insertAll_of_ascending (show Ascending ([] ++ m.entries) from m.ascending)

@[simp] theorem find?_empty (key : κ) : (empty : OrderedMap κ α).find? key = none := rfl

theorem find?_insert (m : OrderedMap κ α) (key wanted : κ) (value : α) :
    (m.insert key value).find? wanted = if wanted = key then some value else m.find? wanted :=
  lookup_insertEntry key wanted value m.entries

@[simp] theorem find?_insert_self (m : OrderedMap κ α) (key : κ) (value : α) :
    (m.insert key value).find? key = some value :=
  lookup_insertEntry_self key value m.entries

theorem find?_insert_of_ne (m : OrderedMap κ α) {key wanted : κ} (different : wanted ≠ key)
    (value : α) : (m.insert key value).find? wanted = m.find? wanted :=
  lookup_insertEntry_of_ne different value m.entries

/-- What holds of the new entry and of every old one holds of every entry. -/
theorem forall_find?_insert {m : OrderedMap κ α} {key : κ} {value : α} {P : κ → α → Prop}
    (new : P key value) (old : ∀ other stored, m.find? other = some stored → P other stored) :
    ∀ other stored, (m.insert key value).find? other = some stored → P other stored := by
  intro other stored found
  rw [find?_insert] at found
  by_cases same : other = key
  · rw [if_pos same] at found
    rw [same, ← Option.some.inj found]
    exact new
  · rw [if_neg same] at found
    exact old other stored found

theorem contains_insert (m : OrderedMap κ α) (key wanted : κ) (value : α) :
    (m.insert key value).contains wanted = (decide (wanted = key) || m.contains wanted) := by
  rw [contains, find?_insert]
  by_cases same : wanted = key <;> simp [same, contains]

theorem mem_of_find? {m : OrderedMap κ α} {key : κ} {value : α} (found : m.find? key = some value) :
    (key, value) ∈ m.entries :=
  mem_of_lookup_eq_some found

theorem find?_of_mem (m : OrderedMap κ α) {entry : κ × α} (inside : entry ∈ m.entries) :
    m.find? entry.1 = some entry.2 :=
  lookup_eq_some_of_mem m.ascending inside

theorem contains_eq_false_iff (m : OrderedMap κ α) (key : κ) :
    m.contains key = false ↔ m.find? key = none := by
  rw [contains, Option.isSome_eq_false_iff, Option.isNone_iff_eq_none]

theorem mem_keys_iff (m : OrderedMap κ α) (key : κ) : key ∈ m.keys ↔ m.contains key = true := by
  rw [keys, contains, Option.isSome_iff_exists, List.mem_map]
  constructor
  · rintro ⟨⟨found, value⟩, inside, rfl⟩
    exact ⟨value, lookup_eq_some_of_mem m.ascending inside⟩
  · rintro ⟨value, found⟩
    exact ⟨(key, value), mem_of_find? found, rfl⟩

end OrderedMap
