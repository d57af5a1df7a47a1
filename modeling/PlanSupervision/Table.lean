/-!
Finite maps with text keys, kept in increasing key order, so that two tables with
the same entries are equal.
-/

namespace PlanSupervision

namespace Table

/-- Write an entry into a list sorted by key, replacing the entry of the same key. -/
def put {Value : Type} (key : String) (value : Value) :
    List (String × Value) → List (String × Value)
  | [] => [(key, value)]
  | entry :: rest =>
      if key < entry.1 then (key, value) :: entry :: rest
      else if key = entry.1 then (key, value) :: rest
      else entry :: put key value rest

def Sorted {Value : Type} (entries : List (String × Value)) : Prop :=
  entries.Pairwise (fun earlier later => earlier.1 < later.1)

theorem mem_put {Value : Type} {key : String} {value : Value} {entries : List (String × Value)}
    {entry : String × Value} (member : entry ∈ put key value entries) :
    entry = (key, value) ∨ entry ∈ entries := by
  induction entries with
  | nil => simpa [put] using member
  | cons head rest inductionHypothesis =>
      unfold put at member
      split at member
      · simpa using member
      · split at member
        · rcases List.mem_cons.mp member with found | found
          · exact Or.inl found
          · exact Or.inr (List.mem_cons_of_mem _ found)
        · rcases List.mem_cons.mp member with found | found
          · exact Or.inr (found ▸ List.mem_cons_self)
          · rcases inductionHypothesis found with new | old
            · exact Or.inl new
            · exact Or.inr (List.mem_cons_of_mem _ old)

theorem sorted_put {Value : Type} {key : String} {value : Value}
    {entries : List (String × Value)} (sorted : Sorted entries) :
    Sorted (put key value entries) := by
  induction entries with
  | nil => simp [put, Sorted]
  | cons head rest inductionHypothesis =>
      obtain ⟨below, restSorted⟩ := List.pairwise_cons.mp sorted
      unfold put
      split
      next smaller =>
        refine List.pairwise_cons.mpr ⟨?_, sorted⟩
        intro entry member
        rcases List.mem_cons.mp member with found | found
        · exact found ▸ smaller
        · exact String.lt_trans smaller (below entry found)
      next notSmaller =>
        split
        next same =>
          exact List.pairwise_cons.mpr ⟨fun entry member => same ▸ below entry member, restSorted⟩
        next different =>
          refine List.pairwise_cons.mpr ⟨?_, inductionHypothesis restSorted⟩
          intro entry member
          rcases mem_put member with found | found
          · subst found
            exact String.not_le.mp fun least =>
              different (String.le_antisymm least (String.not_lt.mp notSmaller))
          · exact below entry found

end Table

/-- A finite map from texts. -/
structure Table (Value : Type) where
  entries : List (String × Value)
  sorted : Table.Sorted entries

namespace Table

variable {Value : Type}

def empty : Table Value := ⟨[], List.Pairwise.nil⟩

instance : Inhabited (Table Value) := ⟨empty⟩

def insert (table : Table Value) (key : String) (value : Value) : Table Value :=
  ⟨put key value table.entries, sorted_put table.sorted⟩

/-- The table of a list of entries, where the last entry of a key counts. -/
def ofList (entries : List (String × Value)) : Table Value :=
  entries.foldl (fun table entry => table.insert entry.1 entry.2) empty

def get? (table : Table Value) (key : String) : Option Value :=
  table.entries.lookup key

@[ext] theorem ext {left right : Table Value} (same : left.entries = right.entries) :
    left = right := by
  cases left
  cases right
  simp_all

end Table

end PlanSupervision
