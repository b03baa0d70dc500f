/-!
# Lines of text

A line runs up to a line feed, which is the last of it. Only at the end of a text may a line have
none.
-/

namespace Resolution.Text

/-- The text of the lines, each with a line feed behind it. -/
def unlines (lines : List String) : String :=
  String.join (lines.map (· ++ "\n"))

section Splitting

variable {α : Type} [DecidableEq α] {x : α}

/-- Cuts a list behind each `x`. -/
def splitAfter (x : α) : List α → List (List α)
  | [] => []
  | a :: as =>
    if a = x then [a] :: splitAfter x as
    else
      match splitAfter x as with
      | [] => [[a]]
      | first :: rest => (a :: first) :: rest

@[simp]
theorem splitAfter_cons_self (as : List α) : splitAfter x (x :: as) = [x] :: splitAfter x as := by
  simp [splitAfter]

/-- Puts a list in front of the first part. -/
def joinFirst (line : List α) : List (List α) → List (List α)
  | [] => [line]
  | first :: rest => (line ++ first) :: rest

theorem splitAfter_cons_of_ne {a : α} (h : a ≠ x) (as : List α) :
    splitAfter x (a :: as) = joinFirst [a] (splitAfter x as) := by
  rw [splitAfter, if_neg h]
  cases splitAfter x as <;> rfl

theorem exists_splitAfter_cons (x a : α) (as : List α) :
    ∃ first rest, splitAfter x (a :: as) = (a :: first) :: rest := by
  by_cases h : a = x
  · subst h
    exact ⟨[], splitAfter a as, splitAfter_cons_self as⟩
  · rw [splitAfter_cons_of_ne h]
    cases splitAfter x as with
    | nil => exact ⟨[], [], rfl⟩
    | cons first rest => exact ⟨first, rest, rfl⟩

theorem splitAfter_append {line : List α} (h : x ∉ line) (as : List α) :
    splitAfter x (line ++ x :: as) = (line ++ [x]) :: splitAfter x as := by
  induction line with
  | nil => simp
  | cons a line ih =>
    rw [List.mem_cons, not_or] at h
    rw [List.cons_append, splitAfter_cons_of_ne (Ne.symm h.1), ih h.2]
    rfl

theorem splitAfter_append_of_not_mem {line : List α} (hne : line ≠ []) (h : x ∉ line)
    (as : List α) : splitAfter x (line ++ as) = joinFirst line (splitAfter x as) := by
  induction line with
  | nil => exact absurd rfl hne
  | cons a line ih =>
    rw [List.mem_cons, not_or] at h
    rw [List.cons_append, splitAfter_cons_of_ne (Ne.symm h.1)]
    cases line with
    | nil => rfl
    | cons b line =>
      rw [ih (by simp) h.2]
      cases splitAfter x as <;> rfl

/-- Items that are spelled out are cut where they were, if the mark is spelled by itself and does
not occur in the spelling of anything else. -/
theorem splitAfter_flatMap {β : Type} [DecidableEq β] {y : β} {f : α → List β} (hx : f x = [y])
    (hf : ∀ a, a ≠ x → f a ≠ [] ∧ y ∉ f a) (as : List α) :
    splitAfter y (as.flatMap f) = (splitAfter x as).map (List.flatMap f) := by
  induction as with
  | nil => rfl
  | cons a as ih =>
    rw [List.flatMap_cons]
    by_cases ha : a = x
    · subst ha
      simp [hx, ih]
    · rw [splitAfter_append_of_not_mem (hf a ha).1 (hf a ha).2, splitAfter_cons_of_ne ha, ih]
      cases splitAfter x as <;> simp [joinFirst]

/-- Nothing gets lost between the parts. -/
@[simp]
theorem flatten_splitAfter (as : List α) : (splitAfter x as).flatten = as := by
  induction as with
  | nil => rfl
  | cons a as ih =>
    unfold splitAfter
    split
    · simp [ih]
    · split <;> simp_all

end Splitting

end Resolution.Text
