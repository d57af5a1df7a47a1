import Mathlib.Data.List.Pairwise
import Mathlib.Data.List.Nodup
import PlanSupervision.Table

/-!
Tables as maps. A sorted list of entries is determined by what is found under each key, so a
table does not depend on the order in which its entries were written, as long as no key is
written twice.
-/

namespace PlanSupervision.Table

variable {Value : Type} {entries others : List (String × Value)} {key : String} {value : Value}

/-- No key stands for two entries. -/
def Distinct (entries : List (String × Value)) : Prop := (entries.map Prod.fst).Nodup

theorem Sorted.distinct (sorted : Sorted entries) : Distinct entries := by
  rw [Distinct, List.Nodup, List.pairwise_map]
  exact sorted.imp String.ne_of_lt

theorem Distinct.of_cons {entry : String × Value} (distinct : Distinct (entry :: entries)) :
    Distinct entries := (List.nodup_cons.mp distinct).2

theorem lookup_cons_of_ne {other : String} (different : key ≠ other) :
    ((other, value) :: entries).lookup key = entries.lookup key := by
  have unequal : (key == other) = false := by simpa using different
  rw [List.lookup_cons, unequal]

theorem ne_of_lookup_cons_eq_none {other : String}
    (absent : ((other, value) :: entries).lookup key = none) : key ≠ other := by
  rintro rfl
  rw [List.lookup_cons_self] at absent
  cases absent

theorem lookup_eq_none_iff : entries.lookup key = none ↔ key ∉ entries.map Prod.fst := by
  rw [List.lookup_eq_none_iff]
  simp only [List.mem_map, not_exists, not_and, bne_iff_ne, ne_eq]
  exact ⟨fun absent entry member same => absent entry member same.symm,
    fun absent entry member same => absent entry member same.symm⟩

theorem mem_of_lookup (found : entries.lookup key = some value) : (key, value) ∈ entries := by
  induction entries with
  | nil => cases found
  | cons entry rest inductionHypothesis =>
      obtain ⟨other, held⟩ := entry
      by_cases same : key = other
      · subst same
        rw [List.lookup_cons_self] at found
        obtain rfl := Option.some.inj found
        exact List.mem_cons_self
      · rw [lookup_cons_of_ne same] at found
        exact List.mem_cons_of_mem _ (inductionHypothesis found)

theorem Distinct.lookup_eq_some_iff (distinct : Distinct entries) :
    entries.lookup key = some value ↔ (key, value) ∈ entries := by
  refine ⟨mem_of_lookup, fun member => ?_⟩
  induction entries with
  | nil => cases member
  | cons entry rest inductionHypothesis =>
      obtain ⟨other, held⟩ := entry
      rcases List.mem_cons.mp member with same | later
      · obtain ⟨rfl, rfl⟩ := Prod.mk.inj same
        exact List.lookup_cons_self
      · have different : key ≠ other := by
          rintro rfl
          exact (List.nodup_cons.mp distinct).1 (List.mem_map.mpr ⟨_, later, rfl⟩)
        rw [lookup_cons_of_ne different]
        exact inductionHypothesis distinct.of_cons later

theorem Distinct.lookup_eq_of_perm (distinct : Distinct entries) (perm : entries.Perm others) :
    others.lookup key = entries.lookup key := by
  have alsoDistinct : Distinct others := (perm.map Prod.fst).nodup_iff.mp distinct
  apply Option.ext
  intro value
  rw [distinct.lookup_eq_some_iff, alsoDistinct.lookup_eq_some_iff, perm.mem_iff]

/-- Two sorted lists of entries are equal if the same is found in both under each key. -/
theorem Sorted.eq_of_lookup_eq (sorted : Sorted entries) (alsoSorted : Sorted others)
    (same : ∀ key, entries.lookup key = others.lookup key) : entries = others := by
  have distinct := sorted.distinct
  have alsoDistinct := alsoSorted.distinct
  have members : ∀ entry, entry ∈ entries ↔ entry ∈ others := by
    rintro ⟨key, value⟩
    rw [← distinct.lookup_eq_some_iff, ← alsoDistinct.lookup_eq_some_iff, same key]
  have perm : entries.Perm others :=
    (List.perm_ext_iff_of_nodup (List.Nodup.of_map _ distinct)
      (List.Nodup.of_map _ alsoDistinct)).mpr members
  refine perm.eq_of_pairwise (fun first second _ _ below above => ?_) sorted alsoSorted
  exact absurd (String.lt_trans below above) (String.lt_irrefl _)

theorem lookup_put (entries : List (String × Value)) (key other : String) (value : Value) :
    (put key value entries).lookup other =
      if other = key then some value else entries.lookup other := by
  induction entries with
  | nil =>
      rw [put]
      split
      next same => exact same ▸ List.lookup_cons_self
      next different => exact lookup_cons_of_ne different
  | cons entry rest inductionHypothesis =>
      rw [put]
      split
      · split
        next same => exact same ▸ List.lookup_cons_self
        next different => exact lookup_cons_of_ne different
      · split
        next replaced =>
          split
          next same => exact same ▸ List.lookup_cons_self
          next different =>
            rw [lookup_cons_of_ne different]
            exact (lookup_cons_of_ne (replaced ▸ different)).symm
        next kept =>
          by_cases here : other = entry.1
          · subst here
            rw [if_neg (Ne.symm kept)]
            exact List.lookup_cons_self.trans List.lookup_cons_self.symm
          · have first := @lookup_cons_of_ne _ (put key value rest) _ entry.2 _ here
            have second := @lookup_cons_of_ne _ rest _ entry.2 _ here
            rw [first, second, inductionHypothesis]

/-- What is found in a table that was filled entry by entry, no key twice. -/
theorem lookup_foldl_insert (distinct : Distinct entries) (table : Table Value) :
    (entries.foldl (fun table entry => table.insert entry.1 entry.2) table).entries.lookup key =
      (entries.lookup key).or (table.entries.lookup key) := by
  induction entries generalizing table with
  | nil => rfl
  | cons entry rest inductionHypothesis =>
      obtain ⟨other, value⟩ := entry
      rw [List.foldl_cons, inductionHypothesis distinct.of_cons, insert, lookup_put]
      by_cases same : key = other
      · subst same
        have absent : rest.lookup key = none :=
          lookup_eq_none_iff.mpr (List.nodup_cons.mp distinct).1
        rw [List.lookup_cons_self, absent, if_pos rfl]
        rfl
      · rw [lookup_cons_of_ne same, if_neg same]

theorem lookup_ofList (distinct : Distinct entries) :
    (ofList entries).entries.lookup key = entries.lookup key := by
  rw [ofList, lookup_foldl_insert distinct]
  exact Option.or_none

theorem ofList_eq_of_lookup_eq (distinct : Distinct entries) (alsoDistinct : Distinct others)
    (same : ∀ key, entries.lookup key = others.lookup key) : ofList entries = ofList others := by
  apply ext
  refine (ofList entries).sorted.eq_of_lookup_eq (ofList others).sorted fun key => ?_
  rw [lookup_ofList distinct, lookup_ofList alsoDistinct, same]

theorem ofList_entries (table : Table Value) : ofList table.entries = table := by
  apply ext
  refine (ofList table.entries).sorted.eq_of_lookup_eq table.sorted fun key => ?_
  exact lookup_ofList table.sorted.distinct

theorem lookup_map {Other : Type} (change : Value → Other) (entries : List (String × Value))
    (key : String) :
    (entries.map fun entry => (entry.1, change entry.2)).lookup key =
      (entries.lookup key).map change := by
  induction entries with
  | nil => rfl
  | cons entry rest inductionHypothesis =>
      obtain ⟨other, value⟩ := entry
      by_cases same : key = other
      · subst same
        rw [List.map_cons, List.lookup_cons_self, List.lookup_cons_self]
        rfl
      · rw [List.map_cons, lookup_cons_of_ne same, lookup_cons_of_ne same, inductionHypothesis]

end PlanSupervision.Table
