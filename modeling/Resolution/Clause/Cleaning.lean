import Resolution.Clause.Normal

/-!
# The rule of cleaning

Cleaning as a rule on the first literal: with its negation further on, every copy of both goes;
with a copy further on, one copy stays; otherwise the literal stays as it is.

Beside it stands cleaning by counting, in one pass: how many copies of a literal are ahead is
looked up in a count that is set to zero once the literal is settled.
-/

namespace Resolution

/-- The list without the copies of `l`. -/
def without (l : Literal) (ls : List Literal) : List Literal :=
  ls.filter (· ≠ l)

theorem length_without_le (l : Literal) (ls : List Literal) :
    (without l ls).length ≤ ls.length :=
  List.length_filter_le _ _

def cleanByRule : List Literal → List Literal
  | [] => []
  | l :: ls =>
    if l.negate ∈ ls then cleanByRule (without l (without l.negate ls))
    else if l ∈ ls then l :: cleanByRule (without l ls)
    else l :: cleanByRule ls
termination_by ls => ls.length
decreasing_by
  · exact Nat.lt_succ_of_le
      (Nat.le_trans (length_without_le _ _) (length_without_le _ _))
  · exact Nat.lt_succ_of_le (length_without_le _ _)
  · exact Nat.lt_succ_self _

/-- The count with no copy of `l` left. -/
def countOut (l : Literal) (remaining : Literal → Nat) : Literal → Nat :=
  fun m => if m = l then 0 else remaining m

def cleanCounting (remaining : Literal → Nat) : List Literal → List Literal
  | [] => []
  | l :: ls =>
    if remaining l = 0 then cleanCounting remaining ls
    else if remaining l.negate = 0 then l :: cleanCounting (countOut l remaining) ls
    else cleanCounting (countOut l (countOut l.negate remaining)) ls

end Resolution
