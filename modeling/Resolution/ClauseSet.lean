import Resolution.Clause

/-!
# Sets of clauses

A set keeps its clauses in the order in which they were inserted and holds no two with the same
literals. Of equal clauses the first one inserted stays, so its record is the one that survives.
-/

namespace Resolution

structure ClauseSet where
  toList : List Clause
  distinct : (toList.map Clause.literals).Nodup

namespace ClauseSet

variable {s : ClauseSet} {c : Clause}

theorem ext {s t : ClauseSet} (h : s.toList = t.toList) : s = t := by
  cases s; cases t; simp_all

def empty : ClauseSet := ⟨[], .nil⟩

instance : EmptyCollection ClauseSet := ⟨empty⟩

def size (s : ClauseSet) : Nat := s.toList.length

def contains (s : ClauseSet) (c : Clause) : Bool :=
  s.toList.any fun d => d.literals = c.literals

theorem contains_iff : s.contains c = true ↔ c.literals ∈ s.toList.map Clause.literals := by
  simp [contains]

/-- The clause of the set that has the literals of `c`, with its own record. -/
def get? (s : ClauseSet) (c : Clause) : Option Clause :=
  s.toList.find? fun d => d.literals = c.literals

def insert (s : ClauseSet) (c : Clause) : ClauseSet :=
  if h : s.contains c then s
  else
    ⟨s.toList ++ [c], by
      rw [contains_iff] at h
      rw [List.map_append, List.nodup_append]
      refine ⟨s.distinct, by simp, ?_⟩
      rintro a ha b hb rfl
      simp only [List.map_cons, List.map_nil, List.mem_singleton] at hb
      exact h (hb ▸ ha)⟩

theorem toList_insert :
    (s.insert c).toList = if s.contains c then s.toList else s.toList ++ [c] := by
  unfold insert; split <;> simp [*]

theorem insert_of_contains (h : s.contains c = true) : s.insert c = s := by
  simp [insert, h]

@[simp]
theorem contains_insert {d : Clause} :
    (s.insert c).contains d = (s.contains d || decide (c.literals = d.literals)) := by
  unfold contains
  rw [toList_insert]
  split
  case isTrue h =>
    by_cases hd : c.literals = d.literals
    · simpa [contains, hd] using h
    · simp [hd]
  case isFalse => simp

@[simp]
theorem toList_empty : (∅ : ClauseSet).toList = [] := rfl

def ofList (cs : List Clause) : ClauseSet :=
  cs.foldl insert ∅

def display (s : ClauseSet) : String :=
  "ClauseSet(" ++ toString s.size ++ " clauses)"

end ClauseSet

end Resolution
