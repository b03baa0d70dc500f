import Resolution.Saturation.Round

/-!
# Sets of clause objects

A clause can be held as an object whose record is written to later on. A set does not copy the
objects that it is given, it keeps them, and nothing prevents that one of them is given to it again.
It tells them apart by the literals they hold, which are never written to. A round writes its
number into an object only after the set has taken it, so the entry is altered where it stands.
-/

namespace Resolution

/-- What is given to a set at a time: something by itself, or the batch of a round. -/
inductive Insertion (α : Type) where
  | single (a : α)
  | batch (round : Int) (as : List α)

namespace Insertion

variable {α β : Type}

def map (f : α → β) : Insertion α → Insertion β
  | single a => single (f a)
  | batch round as => batch round (as.map f)

/-- All that is given, in order. -/
def given : Insertion α → List α
  | single a => [a]
  | batch _ as => as

/-- The clauses given, in order, each with the step that it has if it is added. -/
def stamped : Insertion Clause → List Clause
  | single c => [c]
  | batch round cs => cs.map fun c => { c with step := round }

end Insertion

def ClauseSet.add (s : ClauseSet) : Insertion Clause → ClauseSet
  | .single c => s.insert c
  | .batch round cs => (absorb round s cs).known

structure ObjectSet (Object : Type) where
  /-- What every object holds at the time, whether it is in the set or not. -/
  contents : Object → Clause
  entries : List Object
  distinct : ((entries.map contents).map Clause.literals).Nodup

namespace ObjectSet

variable {Object : Type}

def empty (contents : Object → Clause) : ObjectSet Object :=
  ⟨contents, [], List.nodup_nil⟩

section Lookup

variable (s : ObjectSet Object)

/-- The set of the clauses that the entries hold at the time. -/
def view : ClauseSet :=
  ⟨s.entries.map s.contents, s.distinct⟩

@[simp]
theorem toList_view : s.view.toList = s.entries.map s.contents := rfl

def contains (c : Clause) : Bool :=
  s.entries.any fun o => (s.contents o).literals = c.literals

theorem contains_view (c : Clause) : s.view.contains c = s.contains c := by
  rw [ClauseSet.contains, toList_view, List.any_map]
  rfl

/-- The entry that holds the literals of `c`. -/
def get? (c : Clause) : Option Object :=
  s.entries.find? fun o => (s.contents o).literals = c.literals

end Lookup

/-- The set with the object at its end, and that it was taken, unless an entry holds the same
literals already. -/
def insert (s : ObjectSet Object) (o : Object) : ObjectSet Object × Bool :=
  if h : s.contains (s.contents o) then (s, false)
  else
    (⟨s.contents, s.entries ++ [o], by
      have hview := (s.view.insert (s.contents o)).distinct
      rw [ClauseSet.toList_insert, contains_view, if_neg h] at hview
      rwa [List.map_append]⟩, true)

def ofList (contents : Object → Clause) (os : List Object) : ObjectSet Object :=
  os.foldl (fun s o => (s.insert o).1) (empty contents)

section Writing

variable [DecidableEq Object]

/-- The contents after a step was written into one object. -/
def written (contents : Object → Clause) (o : Object) (step : Int) (p : Object) : Clause :=
  if p = o then { contents p with step } else contents p

variable (contents : Object → Clause) {o p : Object} (step : Int)

theorem written_self : written contents o step o = { contents o with step } :=
  if_pos rfl

theorem written_of_ne (h : p ≠ o) : written contents o step p = contents p :=
  if_neg h

theorem literals_written : (written contents o step p).literals = (contents p).literals := by
  unfold written; split <;> rfl

/-- Writes a step into an object. -/
def stamp (s : ObjectSet Object) (o : Object) (step : Int) : ObjectSet Object where
  contents := written s.contents o step
  entries := s.entries
  distinct := by
    have hliterals : Clause.literals ∘ written s.contents o step = Clause.literals ∘ s.contents :=
      funext fun _ => literals_written s.contents step
    rw [List.map_map, hliterals, ← List.map_map]
    exact s.distinct

@[simp]
theorem contents_stamp (s : ObjectSet Object) :
    (s.stamp o step).contents = written s.contents o step := rfl

@[simp]
theorem entries_stamp (s : ObjectSet Object) : (s.stamp o step).entries = s.entries := rfl

/-- Gives the objects of a batch to the set in turn and writes the round into those that it takes,
which are returned beside it. -/
def absorb (round : Int) (s : ObjectSet Object) : List Object → ObjectSet Object × List Object
  | [] => (s, [])
  | o :: os =>
    match s.insert o with
    | (t, true) =>
      let (rest, added) := absorb round (t.stamp o round) os
      (rest, o :: added)
    | (t, false) => absorb round t os

def add (s : ObjectSet Object) : Insertion Object → ObjectSet Object
  | .single o => (s.insert o).1
  | .batch round os => (s.absorb round os).1

end Writing

end ObjectSet

end Resolution
