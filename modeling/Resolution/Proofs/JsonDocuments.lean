import Resolution.Proofs.JsonScalars

/-!
# Documents read back

A value of strings, integers, lists and objects is read back from the text that is printed for it,
if no more lists and objects stand inside each other than are read, its strings have no loose
surrogates and its objects have each key once (`parse_print`). Two surrogates next to each other
would be read as one character, and of two fields with one key the reader keeps one.

Only a limit on digits can stand in the way: the first integer in the text with more is refused.
So what reading comes to is said by the integers of the value (`outcome`), and what a list comes to
is put together from its items (`bind_outcome`).

The induction is on the document. The text of an item ends with a comma or a line, so the reader
stops there, and the text of a list is longer than those of its items, which the budget covers.
-/

namespace Resolution.Json

mutual

/-- The integers in a value, in order. -/
def numerals : Json → List ℤ
  | int n => [n]
  | arr vs => itemNumerals vs
  | obj fs => fieldNumerals fs
  | _ => []

def itemNumerals : List Json → List ℤ
  | [] => []
  | v :: vs => v.numerals ++ itemNumerals vs

def fieldNumerals : List (CodeText × Json) → List ℤ
  | [] => []
  | (_, v) :: fs => v.numerals ++ fieldNumerals fs

end

/-- The number of decimal digits of an integer. -/
def digitCount (n : ℤ) : ℕ :=
  (Nat.toDigits 10 n.natAbs).length

section Outcome

variable {α β : Type} (limit : Option ℕ) {ns : List ℤ} {a b : α} {c : β}

/-- What reading comes to if these are the integers in the text and `a` is what is written. -/
def outcome (ns : List ℤ) (a : α) : Except Refusal α :=
  match ns.findSome? fun n => excess? limit (digitCount n) with
  | some excess => .error (.longNumeral excess)
  | none => .ok a

theorem outcome_eq_ok_iff :
    outcome limit ns a = .ok b ↔ (∀ n ∈ ns, excess? limit (digitCount n) = none) ∧ a = b := by
  unfold outcome
  rw [← List.findSome?_eq_none_iff]
  cases ns.findSome? fun n => excess? limit (digitCount n) <;> simp

theorem bind_outcome (ms : List ℤ) {f : α → Except Refusal β} (h : f a = outcome limit ms c) :
    (outcome limit ns a >>= f) = outcome limit (ns ++ ms) c := by
  unfold outcome at *
  rw [List.findSome?_append]
  cases ns.findSome? fun n => excess? limit (digitCount n) with
  | some excess => rfl
  | none => exact h

theorem bind_outcome_ok {f : α → Except Refusal β} (h : f a = .ok c) :
    (outcome limit ns a >>= f) = outcome limit ns c :=
  (bind_outcome limit [] h).trans (by rw [List.append_nil])

theorem map_outcome (f : α → β) : (outcome limit ns a).map f = outcome limit ns (f a) := by
  unfold outcome
  cases ns.findSome? fun n => excess? limit (digitCount n) <;> rfl

theorem integer_toDigits (n : ℤ) :
    integer limit (n < 0) (Nat.toDigits 10 n.natAbs) = outcome limit [n] (.int n) := by
  have hn : (if n < 0 then -(n.natAbs : ℤ) else n.natAbs) = n := by split_ifs <;> omega
  simp only [integer, outcome, digitCount, digitsValue_toDigits, List.findSome?_singleton]
  split <;> simp_all

end Outcome

/-- A value that is read back if `room` lists and objects may stand inside each other. -/
inductive Document : ℕ → Json → Prop
  | null {room : ℕ} : Document room .null
  | bool {room : ℕ} (b : Bool) : Document room (.bool b)
  | int {room : ℕ} (n : ℤ) : Document room (.int n)
  | text {room : ℕ} (s : String) : Document room (.text s)
  | arr {room : ℕ} {vs : List Json} (hvs : ∀ v ∈ vs, Document room v) :
      Document (room + 1) (.arr vs)
  | obj {room : ℕ} {fs : List (CodeText × Json)} (hkeys : (fs.map Prod.fst).Nodup)
      (htext : ∀ f ∈ fs, ∃ s : String, f.1 = s) (hfs : ∀ f ∈ fs, Document room f.2) :
      Document (room + 1) (.obj fs)

section Space

variable (level : ℕ) {cs : List Char}

theorem skipSpace_newline : skipSpace (newline level ++ cs) = skipSpace cs := by
  have h : ∀ c ∈ newline level, isSpace c = true := by
    intro c hc
    rcases List.mem_cons.1 hc with rfl | hc
    · rfl
    · rw [List.eq_of_mem_replicate hc]
      rfl
  exact List.dropWhile_append_of_pos h

theorem skipSpace_space : skipSpace (' ' :: cs) = skipSpace cs :=
  rfl

theorem skipSpace_mark {c : Char} (hc : isSpace c = false) : skipSpace (c :: cs) = c :: cs :=
  List.dropWhile_cons_of_neg (by simp [hc])

theorem skipSpace_renderString (t : CodeText) :
    skipSpace (renderString t ++ cs) = renderString t ++ cs :=
  rfl

theorem ends_newline : Ends (newline level ++ cs) :=
  .line _

variable {room : ℕ} {v : Json} (hv : Document room v)

include hv

/-- The bracket is the one that would end an empty list. -/
theorem render_eq_cons : ∃ c cs, render level v = c :: cs ∧ isSpace c = false ∧ c ≠ ']' := by
  cases hv with
  | null => exact ⟨_, _, rfl, rfl, by decide⟩
  | bool b => cases b <;> exact ⟨_, _, rfl, rfl, by decide⟩
  | int n =>
    obtain ⟨d, ds, hds, hd⟩ := exists_toDigits n.natAbs
    rw [render, toList_toString]
    split_ifs
    · exact ⟨_, _, rfl, rfl, by decide⟩
    · exact ⟨d, ds, hds, by simp [isSpace, ne_of_isDigit hd], ne_of_isDigit hd rfl⟩
  | text s => exact ⟨_, _, rfl, rfl, by decide⟩
  | @arr _ vs _ => cases vs <;> rw [render] <;> exact ⟨_, _, rfl, rfl, by decide⟩
  | @obj _ fs _ _ _ => cases fs <;> rw [render] <;> exact ⟨_, _, rfl, rfl, by decide⟩

theorem skipSpace_render : skipSpace (render level v ++ cs) = render level v ++ cs := by
  obtain ⟨c, ds, hrender, hspace, -⟩ := render_eq_cons level hv
  simp [hrender, skipSpace, hspace]

end Space

section Keys

theorem setField_of_not_mem {key : CodeText} (value : Json) : ∀ {fs : List (CodeText × Json)},
    key ∉ fs.map Prod.fst → setField fs key value = fs ++ [(key, value)]
  | [], _ => rfl
  | (k, v) :: fs, h => by
    obtain ⟨hk, hfs⟩ := not_or.1 (List.mem_cons.not.1 h)
    rw [setField, if_neg (Ne.symm hk), setField_of_not_mem value hfs, List.cons_append]

theorem foldl_setField : ∀ {fs acc : List (CodeText × Json)}, ((acc ++ fs).map Prod.fst).Nodup →
    fs.foldl (fun acc (key, value) => setField acc key value) acc = acc ++ fs
  | [], acc, _ => (List.append_nil acc).symm
  | (k, v) :: fs, acc, h => by
    have hk : k ∉ acc.map Prod.fst := fun hk => by
      rw [List.map_append, List.nodup_append] at h
      exact h.2.2 _ hk _ (by simp) rfl
    have hfs : (((acc ++ [(k, v)]) ++ fs).map Prod.fst).Nodup := by simpa using h
    rw [List.foldl_cons]
    simp only [setField_of_not_mem v hk, foldl_setField hfs, List.append_assoc]
    rfl

theorem distinctFields_of_nodup {fs : List (CodeText × Json)} (h : (fs.map Prod.fst).Nodup) :
    distinctFields fs = fs :=
  foldl_setField h

end Keys

section RoundTrip

variable (limit : Option ℕ) {room : ℕ} {v : Json} {rest : List Char}

/-- What the induction carries: the value is read at the front of a longer text. -/
def ReadsBack (room : ℕ) (v : Json) : Prop :=
  ∀ (level budget : ℕ) (rest : List Char), Ends rest → 2 * (render level v).length ≤ budget →
    readValue limit budget room (render level v ++ rest) = outcome limit v.numerals (v, rest)

theorem readsBack_of_succ (hv : Document room v)
    (h : ∀ (level budget : ℕ) (rest : List Char), Ends rest →
      2 * (render level v).length ≤ budget + 1 →
        readValue limit (budget + 1) room (render level v ++ rest)
          = outcome limit v.numerals (v, rest)) :
    ReadsBack limit room v := by
  intro level budget rest hrest hbudget
  obtain ⟨c, cs, hrender, -⟩ := render_eq_cons level hv
  cases budget with
  | zero => simp [hrender] at hbudget
  | succ budget => exact h level budget rest hrest hbudget

theorem readValue_int {budget : ℕ} (n : ℤ) (hrest : Ends rest) :
    readValue limit (budget + 1) room ((toString n).toList ++ rest)
      = outcome limit [n] (.int n, rest) := by
  rw [← map_outcome limit (·, rest), ← integer_toDigits, ← readNumber_toString hrest limit]
  obtain ⟨d, ds, hds, hd⟩ := exists_toDigits n.natAbs
  rw [toList_toString]
  split_ifs
  · rw [List.cons_append, readValue] <;> simp
  · rw [hds, List.cons_append, readValue]
    all_goals exact fun _ h => ne_of_isDigit hd rfl (List.cons.inj h).1

theorem bind_ok {ε α β : Type} {a : α} {f : α → Except ε β} : (Except.ok a >>= f) = f a :=
  rfl

theorem readItems_render (level : ℕ) (rest : List Char) :
    ∀ (vs : List Json) (v : Json) (budget : ℕ),
      (∀ w ∈ v :: vs, Document room w ∧ ReadsBack limit room w) →
      2 * (render (level + 1) v ++ renderItems (level + 1) vs).length < budget →
        readItems limit budget room (render (level + 1) v
            ++ (renderItems (level + 1) vs ++ (newline level ++ ']' :: rest)))
          = outcome limit (itemNumerals (v :: vs)) (v :: vs, rest)
  | _, _, 0, _, hbudget => absurd hbudget (Nat.not_lt_zero _)
  | [], v, budget + 1, hvs, hbudget => by
    have hv := (hvs v List.mem_cons_self).2
    simp only [renderItems, List.nil_append, List.append_nil] at hbudget ⊢
    rw [readItems, hv _ _ _ (ends_newline _) (by omega)]
    refine bind_outcome limit [] ?_
    simp only [skipSpace_newline, skipSpace_mark (c := ']') rfl]
    rfl
  | w :: ws, v, budget + 1, hvs, hbudget => by
    have hv := (hvs v List.mem_cons_self).2
    have hws := List.forall_mem_of_forall_mem_cons hvs
    have hw := (hws w List.mem_cons_self).1
    simp only [renderItems, List.length_append, List.length_cons] at hbudget
    have hitems := readItems_render level rest ws w budget hws (by
      rw [List.length_append]
      omega)
    rw [renderItems, readItems]
    simp only [List.cons_append, List.append_assoc]
    rw [hv _ _ _ (.comma _) (by omega)]
    refine bind_outcome limit (itemNumerals (w :: ws)) ?_
    simp only [skipSpace_mark (c := ',') rfl, skipSpace_newline, skipSpace_render _ hw, hitems]
    exact bind_outcome_ok limit rfl

theorem readFields_render (level : ℕ) (rest : List Char) :
    ∀ (fs : List (CodeText × Json)) (k : CodeText) (v : Json) (budget : ℕ),
      (∀ f ∈ (k, v) :: fs,
        (∃ s : String, f.1 = s) ∧ Document room f.2 ∧ ReadsBack limit room f.2) →
      2 * (render (level + 1) v ++ renderFields (level + 1) fs).length < budget →
        readFields limit budget room (renderString k ++ ':' :: ' ' :: (render (level + 1) v
            ++ (renderFields (level + 1) fs ++ (newline level ++ '}' :: rest))))
          = outcome limit (fieldNumerals ((k, v) :: fs)) ((k, v) :: fs, rest)
  | _, _, _, 0, _, hbudget => absurd hbudget (Nat.not_lt_zero _)
  | [], k, v, budget + 1, hfs, hbudget => by
    obtain ⟨⟨s, rfl⟩, hv, hread⟩ :
      (∃ s : String, k = s) ∧ Document room v ∧ ReadsBack limit room v := hfs _ List.mem_cons_self
    obtain ⟨ds, hkey⟩ := exists_readString s
    simp only [renderFields, List.nil_append, List.append_nil] at hbudget ⊢
    rw [(hkey _).1, readFields]
    simp only [(hkey _).2, bind_ok, skipSpace_mark (c := ':') rfl, skipSpace_space,
      skipSpace_render _ hv]
    rw [hread _ _ _ (ends_newline _) (by omega)]
    refine bind_outcome limit [] ?_
    simp only [skipSpace_newline, skipSpace_mark (c := '}') rfl]
    rfl
  | (k', w) :: fs, k, v, budget + 1, hfs, hbudget => by
    obtain ⟨⟨s, rfl⟩, hv, hread⟩ :
      (∃ s : String, k = s) ∧ Document room v ∧ ReadsBack limit room v := hfs _ List.mem_cons_self
    obtain ⟨ds, hkey⟩ := exists_readString s
    have hws := List.forall_mem_of_forall_mem_cons hfs
    simp only [renderFields, List.length_append, List.length_cons] at hbudget
    have hfields := readFields_render level rest fs k' w budget hws (by
      rw [List.length_append]
      omega)
    rw [renderFields]
    simp only [List.cons_append, List.append_assoc, List.nil_append]
    rw [(hkey _).1, readFields]
    simp only [(hkey _).2, bind_ok, skipSpace_mark (c := ':') rfl, skipSpace_space,
      skipSpace_render _ hv]
    rw [hread _ _ _ (.comma _) (by omega)]
    refine bind_outcome limit (fieldNumerals ((k', w) :: fs)) ?_
    simp only [skipSpace_newline, skipSpace_mark (c := ',') rfl, skipSpace_renderString, hfields]
    exact bind_outcome_ok limit rfl

theorem readsBack_arr {vs : List Json} (hvs : ∀ v ∈ vs, Document room v ∧ ReadsBack limit room v) :
    ReadsBack limit (room + 1) (.arr vs) := by
  refine readsBack_of_succ limit (.arr fun v hv => (hvs v hv).1) ?_
  intro level budget rest _ hbudget
  cases vs with
  | nil => rfl
  | cons v vs =>
    have hv := (hvs v List.mem_cons_self).1
    obtain ⟨c, cs, hrender, -, hclose⟩ := render_eq_cons (level + 1) hv
    simp only [render, List.length_append, List.length_cons, List.length_nil] at hbudget
    have hitems := readItems_render limit level rest vs v budget hvs (by
      rw [List.length_append]
      omega)
    simp only [render, List.append_assoc, List.cons_append]
    rw [readValue, skipSpace_newline, skipSpace_render _ hv]
    split
    · rename_i h
      rw [hrender] at h
      exact absurd (List.cons.inj h).1 hclose
    · exact (congrArg _ hitems).trans (map_outcome limit _)

theorem readsBack_obj {fs : List (CodeText × Json)} (hkeys : (fs.map Prod.fst).Nodup)
    (hfs : ∀ f ∈ fs, (∃ s : String, f.1 = s) ∧ Document room f.2 ∧ ReadsBack limit room f.2) :
    ReadsBack limit (room + 1) (.obj fs) := by
  refine readsBack_of_succ limit
    (.obj hkeys (fun f hf => (hfs f hf).1) fun f hf => (hfs f hf).2.1) ?_
  intro level budget rest _ hbudget
  cases fs with
  | nil => rfl
  | cons f fs =>
    obtain ⟨k, v⟩ := f
    simp only [render, List.length_append, List.length_cons, List.length_nil] at hbudget
    have hfields := readFields_render limit level rest fs k v budget hfs (by
      rw [List.length_append]
      omega)
    simp only [render, List.append_assoc, List.cons_append]
    rw [readValue, skipSpace_newline, skipSpace_renderString]
    split
    · rename_i h
      exact absurd (List.cons.inj h).1 (by decide)
    · refine (congrArg _ hfields).trans ((map_outcome limit _).trans ?_)
      simp only [distinctFields_of_nodup hkeys]
      rfl

theorem readsBack (hv : Document room v) : ReadsBack limit room v := by
  induction hv with
  | null => exact readsBack_of_succ limit .null fun _ _ _ _ _ => rfl
  | bool b => exact readsBack_of_succ limit (.bool b) fun _ _ _ _ _ => by cases b <;> rfl
  | int n =>
    refine readsBack_of_succ limit (.int n) fun level budget rest hrest _ => ?_
    rw [render]
    exact readValue_int limit n hrest
  | text s =>
    refine readsBack_of_succ limit (.text s) fun level budget rest _ _ => ?_
    obtain ⟨ds, hread⟩ := exists_readString s
    rw [Json.text, render, (hread rest).1, readValue, (hread rest).2]
    rfl
  | arr hvs ih => exact readsBack_arr limit fun v hv => ⟨hvs v hv, ih v hv⟩
  | obj hkeys htext hfs ih =>
    exact readsBack_obj limit hkeys fun f hf => ⟨htext f hf, hfs f hf, ih f hf⟩

theorem parse_print (hv : Document maxDepth v) :
    parse v.print limit = outcome limit v.numerals v := by
  have hskip : skipSpace (render 0 v ++ []) = render 0 v ++ [] := skipSpace_render 0 hv
  have hread := readsBack limit hv 0 (2 * (render 0 v).length + 1) [] .nil (Nat.le_succ _)
  rw [List.append_nil] at hskip hread
  unfold parse print
  simp only [String.toList_ofList, hskip, hread]
  exact bind_outcome_ok limit rfl

end RoundTrip

end Resolution.Json
