import Resolution.ClauseSet.Objects
import Resolution.Proofs.FirstOccurrences

/-!
# First representatives

A set of clause objects shows the clauses that its entries hold, and so viewed it is the set that
the same insertions make of the clauses alone: the first occurrences, in order. That steps are
written into objects makes no difference. They are written into objects that are being added and
nowhere else, so entries are never altered again (`Grows.keeps`), and an object that is given again
is either in the set, which then passes over it, or holds what it held at first
(`Grows.view_add`).
-/

namespace Resolution

namespace Insertion

variable {α β : Type}

theorem flatMap_given_single (as : List α) :
    (as.map single).flatMap Insertion.given = as := by
  rw [List.flatMap_map]
  exact List.flatMap_singleton' as

theorem flatMap_stamped_single (cs : List Clause) : (cs.map single).flatMap stamped = cs := by
  rw [List.flatMap_map]
  exact List.flatMap_singleton' cs

theorem map_single (f : α → β) (as : List α) :
    (as.map single).map (Insertion.map f) = (as.map f).map single := by
  rw [List.map_map, List.map_map]
  rfl

end Insertion

namespace ClauseSet

theorem add_eq_foldl (s : ClauseSet) (i : Insertion Clause) :
    s.add i = i.stamped.foldl insert s := by
  cases i with
  | single c => rfl
  | batch round cs => exact known_absorb round s cs

theorem foldl_add (s : ClauseSet) (is : List (Insertion Clause)) :
    is.foldl add s = (is.flatMap Insertion.stamped).foldl insert s := by
  rw [List.foldl_flatMap, funext₂ add_eq_foldl]

end ClauseSet

namespace ObjectSet

variable {Object : Type} {s t u : ObjectSet Object} {o : Object}

theorem nodup_entries (s : ObjectSet Object) : s.entries.Nodup :=
  s.distinct.of_map.of_map

theorem contains_of_mem (h : o ∈ s.entries) : s.contains (s.contents o) = true :=
  List.any_eq_true.mpr ⟨o, h, decide_eq_true rfl⟩

theorem map_get? (s : ObjectSet Object) (c : Clause) :
    (s.get? c).map s.contents = s.view.get? c := by
  rw [ClauseSet.get?, toList_view, List.find?_map]
  rfl

section Growing

variable {added added' : List Object}

/-- The entries of one set are in front in another, with what they held before. -/
structure Keeps (s t : ObjectSet Object) : Prop where
  isPrefix : s.entries <+: t.entries
  unaltered : ∀ o ∈ s.entries, t.contents o = s.contents o

/-- What insertions do to a set and to all objects: they add entries behind the others, and write
nothing but steps and to nothing but what they add. -/
structure Grows (s t : ObjectSet Object) (added : List Object) : Prop where
  entries : t.entries = s.entries ++ added
  others : ∀ o ∉ added, t.contents o = s.contents o
  upToStep : ∀ o step, { t.contents o with step } = { s.contents o with step }

theorem Grows.refl (s : ObjectSet Object) : Grows s s [] :=
  ⟨(List.append_nil _).symm, fun _ _ => rfl, fun _ _ => rfl⟩

theorem Grows.trans (h : Grows s t added) (h' : Grows t u added') :
    Grows s u (added ++ added') where
  entries := by rw [h'.entries, h.entries, List.append_assoc]
  others o ho := by
    rw [List.mem_append, not_or] at ho
    exact (h'.others o ho.2).trans (h.others o ho.1)
  upToStep o step := (h'.upToStep o step).trans (h.upToStep o step)

theorem Grows.literals (h : Grows s t added) (o : Object) :
    (t.contents o).literals = (s.contents o).literals := by
  have hls := congrArg Clause.literals (h.upToStep o 0)
  exact hls

/-- No object is added to a set that has it. -/
theorem Grows.not_mem (h : Grows s t added) (ho : o ∈ s.entries) : o ∉ added := by
  have hnodup := t.nodup_entries
  rw [h.entries, List.nodup_append] at hnodup
  exact fun hadded => hnodup.2.2 o ho o hadded rfl

theorem Grows.keeps (h : Grows s t added) : Keeps s t where
  isPrefix := h.entries ▸ List.prefix_append _ _
  unaltered _ ho := h.others _ (h.not_mem ho)

theorem Grows.toList_view (h : Grows s t added) :
    t.view.toList = s.view.toList ++ added.map t.contents := by
  rw [ObjectSet.toList_view, ObjectSet.toList_view, h.entries, List.map_append,
    List.map_congr_left fun o ho => h.keeps.unaltered o ho]

/-- As a round stamps what it adds, what step an object has beforehand makes no difference. -/
theorem Grows.known_absorb (h : Grows s t added) (round : ℤ) (known : ClauseSet)
    (os : List Object) : (Resolution.absorb round known (os.map t.contents)).known
      = (Resolution.absorb round known (os.map s.contents)).known := by
  rw [Resolution.known_absorb, Resolution.known_absorb, List.map_map, List.map_map]
  congr 1
  exact List.map_congr_left fun o _ => h.upToStep o round

/-- A round, moreover, writes its number into all that it adds. -/
structure Absorbs (round : ℤ) (s t : ObjectSet Object) (added : List Object) : Prop
    extends Grows s t added where
  stamped : ∀ o ∈ added, t.contents o = { s.contents o with step := round }

theorem Absorbs.refl (round : ℤ) (s : ObjectSet Object) : Absorbs round s s [] :=
  ⟨.refl s, by simp⟩

theorem Absorbs.trans {round : ℤ} (h : Absorbs round s t added) (h' : Absorbs round t u added') :
    Absorbs round s u (added ++ added') where
  toGrows := h.toGrows.trans h'.toGrows
  stamped o ho := by
    by_cases hadded' : o ∈ added'
    · exact (h'.stamped o hadded').trans (h.upToStep o round)
    · have hadded : o ∈ added := (List.mem_append.mp ho).resolve_right hadded'
      exact (h'.others o hadded').trans (h.stamped o hadded)

end Growing

section Inserting

theorem insert_of_contains (h : s.contains (s.contents o) = true) : s.insert o = (s, false) := by
  simp [insert, h]

theorem insert_snd (s : ObjectSet Object) (o : Object) :
    (s.insert o).2 = !s.contains (s.contents o) := by
  unfold insert; split <;> simp [*]

@[simp]
theorem contents_insert (s : ObjectSet Object) (o : Object) :
    (s.insert o).1.contents = s.contents := by
  unfold insert; split <;> rfl

theorem entries_insert (s : ObjectSet Object) (o : Object) : (s.insert o).1.entries
    = if s.contains (s.contents o) then s.entries else s.entries ++ [o] := by
  unfold insert; split <;> simp [*]

theorem exists_grows_insert (s : ObjectSet Object) (o : Object) :
    ∃ added, Grows s (s.insert o).1 added := by
  rcases ho : s.contains (s.contents o)
  case true => exact ⟨[], by rw [insert_of_contains ho]; exact .refl s⟩
  case false => exact ⟨[o], by simp [entries_insert, ho], by simp, by simp⟩

theorem view_insert (s : ObjectSet Object) (o : Object) :
    (s.insert o).1.view = s.view.insert (s.contents o) := by
  apply ClauseSet.ext
  rw [ClauseSet.toList_insert, contains_view, toList_view, contents_insert, entries_insert]
  split_ifs
  · rfl
  · rw [List.map_append]
    rfl

theorem get?_insert (s : ObjectSet Object) (o : Object) (c : Clause) : (s.insert o).1.get? c
    = (s.get? c).or ([o].find? fun p => (s.contents p).literals = c.literals) := by
  rw [get?, entries_insert, contents_insert]
  refine find?_ite_append fun ho hoc => ?_
  rw [contains, of_decide_eq_true hoc] at ho
  exact ho

end Inserting

variable [DecidableEq Object]

section Absorbing

variable {round : ℤ} {os added : List Object}

theorem absorb_cons_of_contains (h : s.contains (s.contents o) = true) :
    s.absorb round (o :: os) = s.absorb round os := by
  rw [absorb, insert_of_contains h]

theorem absorb_cons_of_not_contains (h : s.contains (s.contents o) = false) :
    s.absorb round (o :: os) =
      let rest := ((s.insert o).1.stamp o round).absorb round os
      (rest.1, o :: rest.2) := by
  have htaken : s.insert o = ((s.insert o).1, true) := Prod.ext rfl (by simp [insert_snd, h])
  rw [absorb, htaken]

theorem absorbs_stamp_insert (h : s.contains (s.contents o) = false) (round : ℤ) :
    Absorbs round s ((s.insert o).1.stamp o round) [o] where
  entries := by simp [entries_insert, h]
  others p hp := by
    have hpo : p ≠ o := fun h => hp (List.mem_singleton.mpr h)
    rw [contents_stamp, contents_insert, written_of_ne _ _ hpo]
  upToStep p step := by
    rw [contents_stamp, contents_insert, written]
    split <;> rfl
  stamped p hp := by
    rw [contents_stamp, contents_insert, List.mem_singleton.mp hp, written_self]

theorem absorbs (round : ℤ) (s : ObjectSet Object) (os : List Object) :
    Absorbs round s (s.absorb round os).1 (s.absorb round os).2 := by
  induction os generalizing s with
  | nil => exact .refl round s
  | cons o os ih =>
    rcases ho : s.contains (s.contents o)
    case true => rw [absorb_cons_of_contains ho]; exact ih s
    case false =>
      rw [absorb_cons_of_not_contains ho]
      exact (absorbs_stamp_insert ho round).trans (ih _)

theorem sublist_absorb (round : ℤ) (s : ObjectSet Object) (os : List Object) :
    (s.absorb round os).2.Sublist os := by
  induction os generalizing s with
  | nil => exact List.Sublist.refl _
  | cons o os ih =>
    rcases ho : s.contains (s.contents o)
    case true => rw [absorb_cons_of_contains ho]; exact (ih s).cons o
    case false => rw [absorb_cons_of_not_contains ho]; exact (ih _).cons_cons o

theorem view_stamp_insert (h : s.contains (s.contents o) = false) (round : ℤ) :
    ((s.insert o).1.stamp o round).view = s.view.insert { s.contents o with step := round } := by
  have hfree : s.view.contains { s.contents o with step := round } = false :=
    (contains_view s _).trans h
  apply ClauseSet.ext
  rw [(absorbs_stamp_insert h round).toList_view, ClauseSet.toList_insert, hfree,
    if_neg Bool.false_ne_true, contents_stamp, contents_insert, List.map_singleton, written_self]

theorem view_absorb (round : ℤ) (s : ObjectSet Object) (os : List Object) :
    (s.absorb round os).1.view = (Resolution.absorb round s.view (os.map s.contents)).known := by
  induction os generalizing s with
  | nil => rfl
  | cons o os ih =>
    rw [List.map_cons, Resolution.absorb, contains_view]
    rcases ho : s.contains (s.contents o)
    case true => rw [absorb_cons_of_contains ho, ih, if_pos rfl]
    case false =>
      rw [absorb_cons_of_not_contains ho, if_neg Bool.false_ne_true]
      dsimp only
      rw [← view_stamp_insert ho]
      exact (ih _).trans ((absorbs_stamp_insert ho round).known_absorb round _ os)

theorem added_absorb (round : ℤ) (s : ObjectSet Object) (os : List Object) :
    (s.absorb round os).2.map (s.absorb round os).1.contents
      = (Resolution.absorb round s.view (os.map s.contents)).added := by
  have hview := congrArg ClauseSet.toList (view_absorb round s os)
  rw [(absorbs round s os).toList_view, toList_known_absorb] at hview
  exact List.append_cancel_left hview

/-- As long as no object stands in the batch twice, the objects hold afterwards what is left of the
batch of clauses. -/
theorem batch_absorb (s : ObjectSet Object) (hos : os.Nodup) :
    os.map (s.absorb round os).1.contents
      = (Resolution.absorb round s.view (os.map s.contents)).batch := by
  induction os generalizing s with
  | nil => rfl
  | cons o os ih =>
    obtain ⟨hnot, hos⟩ := List.nodup_cons.mp hos
    rw [List.map_cons, List.map_cons, Resolution.absorb, contains_view]
    rcases ho : s.contains (s.contents o)
    case true =>
      -- an object that is turned away does not come again, so it is not stamped later either
      have hrejected := (absorbs round s os).others o fun h =>
        hnot ((sublist_absorb round s os).subset h)
      rw [absorb_cons_of_contains ho, hrejected, ih s hos, if_pos rfl]
    case false =>
      have hstamped := (absorbs round s (o :: os)).stamped o
      rw [absorb_cons_of_not_contains ho] at hstamped ⊢
      have hrest : os.map ((s.insert o).1.stamp o round).contents = os.map s.contents :=
        List.map_congr_left fun p hp => (absorbs_stamp_insert ho round).others p fun h =>
          hnot (List.mem_singleton.mp h ▸ hp)
      dsimp only at hstamped ⊢
      rw [hstamped List.mem_cons_self, ih _ hos, hrest, view_stamp_insert ho,
        if_neg Bool.false_ne_true]

theorem get?_stamp (s : ObjectSet Object) (o : Object) (step : ℤ) (c : Clause) :
    (s.stamp o step).get? c = s.get? c := by
  simp only [get?, contents_stamp, entries_stamp, literals_written]

theorem get?_absorb (round : ℤ) (s : ObjectSet Object) (os : List Object) (c : Clause) :
    (s.absorb round os).1.get? c
      = (s.get? c).or (os.find? fun o => (s.contents o).literals = c.literals) := by
  induction os generalizing s with
  | nil => exact (Option.or_none).symm
  | cons o os ih =>
    have hfirst : (o :: os).find? (fun p => (s.contents p).literals = c.literals)
        = ([o].find? fun p => (s.contents p).literals = c.literals).or
          (os.find? fun p => (s.contents p).literals = c.literals) := by
      rw [← List.find?_append, List.singleton_append]
    rw [hfirst, ← Option.or_assoc, ← get?_insert]
    rcases ho : s.contains (s.contents o)
    case true => rw [absorb_cons_of_contains ho, ih, insert_of_contains ho]
    case false =>
      rw [absorb_cons_of_not_contains ho]
      dsimp only
      rw [ih, get?_stamp]
      simp only [contents_stamp, literals_written, contents_insert]

end Absorbing

section Histories

theorem exists_grows_add (s : ObjectSet Object) (i : Insertion Object) :
    ∃ added, Grows s (s.add i) added := by
  cases i with
  | single o => exact exists_grows_insert s o
  | batch round os => exact ⟨_, (absorbs round s os).toGrows⟩

theorem exists_grows_foldl (s : ObjectSet Object) (is : List (Insertion Object)) :
    ∃ added, Grows s (is.foldl add s) added := by
  induction is generalizing s with
  | nil => exact ⟨[], .refl s⟩
  | cons i is ih =>
    obtain ⟨added, hstep⟩ := exists_grows_add s i
    obtain ⟨added', hrest⟩ := ih (s.add i)
    exact ⟨added ++ added', hstep.trans hrest⟩

theorem view_add (s : ObjectSet Object) (i : Insertion Object) :
    (s.add i).view = s.view.add (i.map s.contents) := by
  cases i with
  | single o => exact view_insert s o
  | batch round os => exact view_absorb round s os

theorem get?_add (s : ObjectSet Object) (i : Insertion Object) (c : Clause) : (s.add i).get? c
    = (s.get? c).or (i.given.find? fun o => (s.contents o).literals = c.literals) := by
  cases i with
  | single o => exact get?_insert s o c
  | batch round os => exact get?_absorb round s os c

/-- What an object held at first is as good as what it holds when it is given again: if anything
was written to it, the set has it. -/
theorem Grows.view_add {added : List Object} (h : Grows s t added) (i : Insertion Object) :
    (t.add i).view = t.view.add (i.map s.contents) := by
  rw [ObjectSet.view_add]
  cases i with
  | batch round os => exact h.known_absorb round t.view os
  | single o =>
    by_cases ho : o ∈ t.entries
    · have hcontains : t.view.contains (t.contents o) = true :=
        (contains_view t _).trans (contains_of_mem ho)
      have hcontains' : t.view.contains (s.contents o) = true := by
        rwa [ClauseSet.contains, h.literals] at hcontains
      exact (ClauseSet.insert_of_contains hcontains).trans
        (ClauseSet.insert_of_contains hcontains').symm
    · rw [h.entries, List.mem_append, not_or] at ho
      exact congrArg t.view.insert (h.others o ho.2)

theorem view_foldl (s : ObjectSet Object) (is : List (Insertion Object)) : (is.foldl add s).view
    = (is.map (Insertion.map s.contents)).foldl ClauseSet.add s.view := by
  -- from the end, as each object is to be compared with what it held at the very beginning
  induction is using List.reverseRecOn with
  | nil => rfl
  | append_singleton is i ih =>
    obtain ⟨added, hgrows⟩ := exists_grows_foldl s is
    rw [List.foldl_concat, hgrows.view_add, ih, List.map_append, List.map_singleton,
      List.foldl_concat]

theorem get?_foldl (s : ObjectSet Object) (is : List (Insertion Object)) (c : Clause) :
    (is.foldl add s).get? c = (s.get? c).or
      ((is.flatMap Insertion.given).find? fun o => (s.contents o).literals = c.literals) := by
  induction is using List.reverseRecOn with
  | nil => exact (Option.or_none).symm
  | append_singleton is i ih =>
    obtain ⟨added, hgrows⟩ := exists_grows_foldl s is
    rw [List.foldl_concat, get?_add, ih, Option.or_assoc, List.flatMap_append,
      List.flatMap_singleton, List.find?_append]
    simp only [hgrows.literals]

variable (contents : Object → Clause) (os : List Object) (is : List (Insertion Object))

/-- A set made from a list is given the objects one after the other. -/
theorem foldl_add_ofList : is.foldl add (ofList contents os)
    = (os.map Insertion.single ++ is).foldl add (empty contents) := by
  rw [List.foldl_append, List.foldl_map, ofList]
  rfl

theorem view_foldl_ofList : (is.foldl add (ofList contents os)).view
    = .ofList (os.map contents ++ (is.map (Insertion.map contents)).flatMap Insertion.stamped) := by
  rw [foldl_add_ofList, view_foldl, ClauseSet.foldl_add, List.map_append, Insertion.map_single,
    List.flatMap_append, Insertion.flatMap_stamped_single]
  rfl

theorem get?_foldl_ofList (c : Clause) : (is.foldl add (ofList contents os)).get? c
    = (os ++ is.flatMap Insertion.given).find? fun o => (contents o).literals = c.literals := by
  rw [foldl_add_ofList, get?_foldl, List.flatMap_append, Insertion.flatMap_given_single]
  exact Option.none_or

theorem literals_foldl_ofList (o : Object) :
    ((is.foldl add (ofList contents os)).contents o).literals = (contents o).literals := by
  obtain ⟨added, hgrows⟩ := exists_grows_foldl (empty contents) (os.map Insertion.single ++ is)
  rw [foldl_add_ofList]
  exact hgrows.literals o

end Histories

end ObjectSet

/-- Whatever a set is made from and given after that, and however often an object is given, it shows
the clauses that the same insertions make a set of clauses alone. These are the first occurrences,
in order, each with the record that it had there or with the step of the round that added it.
Looking a clause up finds what is in the list, and the object that was given first. A further object
is taken iff no clause given before has its literals. A further round writes its number into the
entries that it adds and nothing else anywhere, and if no object is in its batch twice, these hold
what is left of the batch as clauses. Whatever is given later on, the entries stay in front and hold
what they held. -/
theorem ObjectSet.keeps_firstOccurrences {Object : Type} [DecidableEq Object]
    (contents : Object → Clause) (given : List Object) (insertions : List (Insertion Object)) :
    let s := insertions.foldl add (ofList contents given)
    let objects := given ++ insertions.flatMap Insertion.given
    let clauses := given.map contents
      ++ (insertions.map (Insertion.map contents)).flatMap Insertion.stamped
    (s.view = (insertions.map (Insertion.map contents)).foldl ClauseSet.add
          (.ofList (given.map contents))
        ∧ s.view.toList = firstOccurrences clauses)
      ∧ (∀ c, s.contains c = s.view.contains c
        ∧ (s.contains c = true ↔ ∃ d ∈ s.view.toList, d.literals = c.literals)
        ∧ (∀ d, s.view.get? c = some d ↔ d ∈ s.view.toList ∧ d.literals = c.literals)
        ∧ s.view.get? c = clauses.find? (fun d => d.literals = c.literals)
        ∧ (s.get? c).map s.contents = s.view.get? c
        ∧ s.get? c = objects.find? fun o => (contents o).literals = c.literals)
      ∧ (∀ o, let t := (s.insert o).1
        let taken := (s.insert o).2
        (taken = true ↔ ∀ c ∈ clauses, c.literals ≠ (contents o).literals)
          ∧ taken = !s.view.contains (contents o)
          ∧ t.entries = (if taken then s.entries ++ [o] else s.entries) ∧ t.contents = s.contents)
      ∧ (∀ round batch, let t := (s.absorb round batch).1
        let added := (s.absorb round batch).2
        let a := Resolution.absorb round s.view (batch.map s.contents)
        Absorbs round s t added ∧ added.Sublist batch ∧ added.map t.contents = a.added
          ∧ (batch.Nodup → batch.map t.contents = a.batch))
      ∧ ∀ more : List (Insertion Object), Keeps s (more.foldl add s) := by
  intro s objects clauses
  have hview : s.view = .ofList clauses := view_foldl_ofList contents given insertions
  have hrun : s.view = (insertions.map (Insertion.map contents)).foldl ClauseSet.add
      (.ofList (given.map contents)) := by
    rw [ClauseSet.foldl_add, ← ClauseSet.ofList_append, hview]
  have htaken : ∀ o, (s.insert o).2 = !s.view.contains (contents o) := by
    intro o
    rw [insert_snd, ← contains_view, ClauseSet.contains, literals_foldl_ofList]
    rfl
  refine ⟨⟨hrun, hview ▸ ClauseSet.toList_ofList clauses⟩, fun c => ⟨(contains_view s c).symm, ?_,
    fun d => ClauseSet.get?_eq_some_iff, ?_, map_get? s c,
    get?_foldl_ofList contents given insertions c⟩,
    fun o => ⟨?_, htaken o, ?_, contents_insert s o⟩,
    fun round batch => ⟨absorbs round s batch, sublist_absorb round s batch,
      added_absorb round s batch, batch_absorb s⟩, fun more => ?_⟩
  · rw [← contains_view, ClauseSet.contains_iff_mem, ClauseSet.mem_iff]
  · rw [hview, ClauseSet.get?_ofList]
  · rw [htaken, Bool.not_eq_true', ← Bool.not_eq_true, ClauseSet.contains_iff_mem, hview,
      ClauseSet.mem_ofList, not_exists]
    exact forall_congr' fun c => not_and
  · rw [entries_insert, insert_snd]
    cases s.contains (s.contents o) <;> rfl
  · obtain ⟨added, hgrows⟩ := exists_grows_foldl s more
    exact hgrows.keeps

/-- Five objects of three clauses. Of those with `A` the first one given is kept with its record, of
those with `B` the one that stands in the batch twice; the round is written into it and not into the
others. The next round passes over the other object with `B` and writes into the one with `C`. -/
theorem ObjectSet.keeps_firstOccurrences_given_again :
    let contents : Fin 5 → Clause := fun
      | 0 => ⟨[⟨true, "A"⟩], ["p", "q"], 3⟩
      | 1 => ⟨[⟨true, "A"⟩], [], 0⟩
      | 2 => ⟨[⟨true, "B"⟩], [], 0⟩
      | 3 => ⟨[⟨true, "B"⟩], ["r", "s"], 0⟩
      | 4 => ⟨[⟨true, "C"⟩], [], 0⟩
    let given : List (Fin 5) := [0, 1]
    let insertions : List (Insertion (Fin 5)) := [.batch 7 [2, 2, 3, 1], .single 3]
    let next : List (Fin 5) := [3, 4]
    let s := insertions.foldl add (ofList contents given)
    let t := (s.absorb 9 next).1
    let clauses := given.map contents
      ++ (insertions.map (Insertion.map contents)).flatMap Insertion.stamped
    s.view.toList = firstOccurrences clauses
      ∧ s.view.toList = [contents 0, { contents 2 with step := 7 }] ∧ s.contents 1 = contents 1
      ∧ next.Nodup ∧ Keeps s (s.add (.batch 9 next))
      ∧ next.map t.contents = (Resolution.absorb 9 s.view (next.map s.contents)).batch
      ∧ next.map t.contents = [contents 3, { contents 4 with step := 9 }] := by
  intro contents given insertions next s t clauses
  obtain ⟨⟨-, hlist⟩, -, -, hround, hkeeps⟩ := keeps_firstOccurrences contents given insertions
  have hdistinct : next.Nodup := by decide
  obtain ⟨-, -, -, hbatch⟩ := hround 9 next
  refine ⟨hlist, by decide, by decide, hdistinct, hkeeps [.batch 9 next], ?_, by decide⟩
  simpa only [t, s] using hbatch hdistinct

end Resolution
