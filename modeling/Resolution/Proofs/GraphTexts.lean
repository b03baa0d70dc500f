import Mathlib.Data.List.Basic
import Mathlib.Data.List.Induction
import Resolution.Proofs.QuotedNames

/-!
# Derivation graphs as texts

A backslash is written as it is, also at the end of a name, so where a quoted name ends cannot be
told from its beginning. It can from its end: behind the opening quote every double quote is written
after a backslash, while what stands before the opening quote is never one (`append_escaped_inj`).
So different names and edges have different statements.

Read from the beginning, a statement gives its names back if they do not end in a backslash
(`readStatement?_node`, `readStatement?_edge`), and then the whole text says what the graph is. Where
the name of a node does, the scan takes its closing quote for a part of it and goes on to the opening
quote of the next statement. What stands there goes on with another name, and not with the blank
that a statement would (`readStatement?_backslash`), so the text is not read.
-/

namespace Resolution.DerivationGraph

section Writing

theorem escaped_concat (cs : List Char) (c : Char) : escaped (cs ++ [c])
    = escaped cs ++ (if c = '"' then ['\\'] else []) ++ [c] := by
  by_cases h : c = '"'
  · simp [escaped, h]
  · simp [escaped, h]

variable {xs ys : List Char}

/-- Behind a blank, no escaped double quote begins. -/
theorem append_quote_ne (xs ys : List Char) (bs : List Char) (b : Char) :
    xs ++ [' ', '"'] ≠ ys ++ [' ', '"'] ++ escaped (bs ++ [b]) := by
  intro h
  rw [escaped_concat, ← List.append_assoc] at h
  obtain ⟨hinit, hlast⟩ := List.append_inj' (List.append_assoc xs [' '] ['"'] |>.trans h) rfl
  obtain rfl := (List.cons.inj hlast).1
  rw [if_pos rfl, ← List.append_assoc] at hinit
  exact absurd (List.append_inj' hinit rfl).2 (by decide)

theorem append_escaped_inj (as bs : List Char)
    (h : xs ++ [' ', '"'] ++ escaped as = ys ++ [' ', '"'] ++ escaped bs) :
    xs = ys ∧ as = bs := by
  induction as using List.reverseRecOn generalizing bs with
  | nil =>
    rcases List.eq_nil_or_concat' bs with rfl | ⟨bs, b, rfl⟩
    · exact ⟨(List.append_inj' (List.append_cancel_right h) rfl).1, rfl⟩
    · exact absurd ((List.append_nil _).symm.trans h) (append_quote_ne xs ys bs b)
  | append_singleton as a ih =>
    rcases List.eq_nil_or_concat' bs with rfl | ⟨bs, b, rfl⟩
    · exact absurd ((List.append_nil _).symm.trans h.symm) (append_quote_ne ys xs as a)
    · simp only [escaped_concat, ← List.append_assoc] at h
      obtain ⟨hinit, hlast⟩ := List.append_inj' h rfl
      obtain rfl := (List.cons.inj hlast).1
      obtain ⟨rfl, rfl⟩ := ih bs (List.append_cancel_right hinit)
      exact ⟨rfl, rfl⟩

theorem quoteName_injective : Function.Injective quoteName := by
  intro a b h
  have hnames : [] ++ [' ', '"'] ++ escaped a.toList = [] ++ [' ', '"'] ++ escaped b.toList :=
    congrArg (' ' :: ·) (List.append_cancel_right h)
  exact String.toList_inj.mp (append_escaped_inj _ _ hnames).2

theorem toList_edgeStatement (a b : String) : (edgeStatement (a, b)).toList
    = ("  ".toList ++ quoteName a ++ " ->".toList) ++ [' ', '"'] ++ escaped b.toList
      ++ "\";".toList := by
  simp [edgeStatement, quoteName_eq]

theorem edgeStatement_injective : Function.Injective edgeStatement := by
  rintro ⟨a, b⟩ ⟨c, d⟩ h
  have htext := congrArg String.toList h
  rw [toList_edgeStatement, toList_edgeStatement] at htext
  obtain ⟨hleft, hb⟩ := append_escaped_inj _ _ (List.append_cancel_right htext)
  have ha := List.append_cancel_left (List.append_cancel_right hleft)
  rw [quoteName_injective ha, String.toList_inj.mp hb]

/-- Both colours are written with the same number of letters. -/
theorem length_color (c : Clause) : (color c).toList.length = 9 := by
  unfold color
  split <;> rfl

theorem name_eq_of_nodeStatement_eq {c d : Clause} (h : nodeStatement c = nodeStatement d) :
    c.name = d.name := by
  have htext := congrArg String.toList h
  simp only [nodeStatement, String.toList_append, String.toList_ofList, List.append_assoc] at htext
  have hnames := List.append_cancel_left htext
  refine quoteName_injective (List.append_inj_left' hnames ?_)
  simp [length_color]

end Writing

section Reading

variable {text rest : List Char} {name : String} {count : ℕ} {g : Graph}

@[simp]
theorem skip?_append (start : String) (rest : List Char) :
    skip? start (start.toList ++ rest) = some rest := by
  simp [skip?]

def EndsInBackslash (name : String) : Prop :=
  name.toList.getLast? = some '\\'

instance (name : String) : Decidable (EndsInBackslash name) :=
  inferInstanceAs (Decidable (_ = _))

theorem readName?_quoteName (h : ¬ EndsInBackslash name) (rest : List Char) :
    readName? (quoteName name ++ rest) = some (name.toList, rest) :=
  readName?_quoteName_iff.mpr h

theorem readColor?_color (c : Clause) (rest : List Char) :
    readColor? (" [fillcolor=".toList ++ ((color c).toList
      ++ (", style=filled];\n".toList ++ rest))) = some (color c, rest) := by
  rw [readColor?, skip?_append]
  unfold color
  split <;> rfl

theorem readColor?_arrow (rest : List Char) : readColor? (" -> ".toList ++ rest) = none := by
  simp [readColor?, skip?]

theorem readStatement?_node {c : Clause} (h : ¬ EndsInBackslash c.name) (rest : List Char) :
    readStatement? ((nodeStatement c).toList ++ '\n' :: rest)
      = some (.node c.name (color c), rest) := by
  have htext : (nodeStatement c).toList ++ '\n' :: rest = "  ".toList ++ (quoteName c.name
      ++ (" [fillcolor=".toList ++ ((color c).toList
        ++ (", style=filled];\n".toList ++ rest)))) := by
    simp [nodeStatement]
  simp only [htext, readStatement?, skip?_append, readName?_quoteName h, readColor?_color,
    Option.bind_eq_bind, Option.bind_some, Option.pure_def, String.ofList_toList]

theorem readStatement?_edge {e : String × String} (hparent : ¬ EndsInBackslash e.1)
    (hchild : ¬ EndsInBackslash e.2) (rest : List Char) :
    readStatement? ((edgeStatement e).toList ++ '\n' :: rest) = some (.edge e.1 e.2, rest) := by
  have htext : (edgeStatement e).toList ++ '\n' :: rest = "  ".toList ++ (quoteName e.1
      ++ (" -> ".toList ++ (quoteName e.2 ++ (";\n".toList ++ rest)))) := by
    simp [edgeStatement]
  simp only [htext, readStatement?, readChild?, skip?_append, readName?_quoteName hparent,
    readName?_quoteName hchild, readColor?_arrow, Option.bind_eq_bind, Option.bind_some,
    Option.pure_def, String.ofList_toList]

theorem readNameRest_backslash (cs rest : List Char) :
    readNameRest (escaped cs ++ '\\' :: '"' :: rest)
      = (readNameRest rest).map fun (name, rest) => (cs ++ '"' :: name, rest) := by
  induction cs with
  | nil => exact readNameRest_cons_escape rest
  | cons c cs ih =>
    by_cases hc : c = '"'
    · subst hc
      rw [escaped_cons_quote, List.cons_append, List.cons_append, readNameRest_cons_escape, ih,
        Option.map_map]
      rfl
    · have hnext : (escaped cs ++ '\\' :: '"' :: rest).head? ≠ some '"' := by
        rcases cs with _ | ⟨d, ds⟩
        · simp
        · exact head?_escaped_append_ne (by simp) _
      rw [escaped_cons_of_ne hc, List.cons_append, readNameRest_cons hc fun _ => hnext, ih,
        Option.map_map]
      rfl

theorem readNameRest_append : ∀ {cs : List Char}, '"' ∉ cs → '\\' ∉ cs → ∀ rest : List Char,
    readNameRest (cs ++ rest) = (readNameRest rest).map fun (name, rest) => (cs ++ name, rest)
  | [], _, _, rest => by simp
  | c :: cs, hquote, hbackslash, rest => by
    simp only [List.mem_cons, not_or] at hquote hbackslash
    rw [List.cons_append, readNameRest_cons (Ne.symm hquote.1) fun h => absurd h.symm hbackslash.1,
      readNameRest_append hquote.2 hbackslash.2, Option.map_map]
    rfl

/-- What may follow a statement: the end of the graph, or another statement, the first name of which
does not begin with a blank. -/
def MayFollow (text : List Char) : Prop :=
  text = "\x7d\n".toList ∨ ∃ tail : List Char, text = "  \"".toList ++ tail ∧ tail.head? ≠ some ' '

/-- Behind a name, a statement goes on with a blank. -/
theorem readColor?_readChild?_of_head?_ne (h : text.head? ≠ some ' ') :
    readColor? text = none ∧ readChild? text = none := by
  rcases text with _ | ⟨c, cs⟩
  · exact ⟨rfl, rfl⟩
  · have hc : ' ' ≠ c := fun heq => h (by rw [heq]; rfl)
    simp [readColor?, readChild?, skip?, List.isPrefixOf?, hc]

theorem readStatement?_backslash {c : Clause} (h : EndsInBackslash c.name) (hrest : MayFollow rest) :
    readStatement? ((nodeStatement c).toList ++ '\n' :: rest) = none := by
  obtain ⟨cs, hcs⟩ := List.getLast?_eq_some_iff.mp h
  set attributes := (" [fillcolor=" ++ color c ++ ", style=filled];\n").toList with hattributes
  have hplain : '"' ∉ attributes ∧ '\\' ∉ attributes := by
    rw [hattributes]
    unfold color
    split <;> decide
  have htext : (nodeStatement c).toList ++ '\n' :: rest
      = "  ".toList ++ '"' :: (escaped cs ++ '\\' :: '"' :: (attributes ++ rest)) := by
    simp [nodeStatement, quoteName_eq, hcs, escaped_concat, hattributes]
  rw [htext, readStatement?, skip?_append, Option.bind_eq_bind, Option.bind_some, readName?,
    readNameRest_backslash, readNameRest_append hplain.1 hplain.2]
  rcases hrest with rfl | ⟨tail, rfl, htail⟩
  · rfl
  · -- the name goes on to the opening quote of the next statement, which no statement goes on behind
    obtain ⟨hcolor, hchild⟩ := readColor?_readChild?_of_head?_ne htail
    have hblanks : readNameRest ("  \"".toList ++ tail) = some ("  ".toList, tail) := rfl
    simp only [hblanks, Option.map_some, Option.bind_some, Option.bind_eq_bind, hcolor, hchild,
      Option.bind_none]

theorem readStatements?_flatMap {α : Type} {write : α → List Char} {statement : α → Statement} :
    ∀ {xs : List α},
    (∀ x ∈ xs, ∀ after, readStatement? (write x ++ after) = some (statement x, after)) →
    readStatements? (count + xs.length) (xs.flatMap write ++ rest)
      = (readStatements? count rest).map fun g => xs.foldr (fun x g => g.cons (statement x)) g
  | [], _ => by simp
  | x :: xs, h => by
    obtain ⟨hx, hxs⟩ := List.forall_mem_cons.mp h
    rw [List.flatMap_cons, List.append_assoc, List.length_cons, ← Nat.add_assoc, readStatements?,
      hx]
    dsimp only
    rw [readStatements?_flatMap hxs, Option.map_map]
    rfl

theorem foldr_cons_node (cs : List Clause) (g : Graph) :
    cs.foldr (fun c g => g.cons (.node c.name (color c))) g
      = { g with nodes := (cs.map fun c => (c.name, color c)) ++ g.nodes } := by
  induction cs with
  | nil => rfl
  | cons c cs ih => rw [List.foldr_cons, ih]; rfl

theorem foldr_cons_edge (es : List (String × String)) (g : Graph) :
    es.foldr (fun e g => g.cons (.edge e.1 e.2)) g = { g with edges := es ++ g.edges } := by
  induction es with
  | nil => rfl
  | cons e es ih => rw [List.foldr_cons, ih]; rfl

theorem mayFollow_quoteName (h : name.toList.head? ≠ some ' ') (rest : List Char) :
    MayFollow ("  ".toList ++ (quoteName name ++ rest)) := by
  refine .inr ⟨escaped name.toList ++ '"' :: rest, by simp [quoteName_eq], ?_⟩
  rcases hname : name.toList with _ | ⟨c, cs⟩
  · simp
  · rw [hname] at h
    by_cases hc : c = '"'
    · simp [hc, escaped_cons_quote]
    · simpa [escaped_cons_of_ne hc] using h

theorem toList_unlines (lines : List String) :
    (Text.unlines lines).toList = lines.flatMap fun line => line.toList ++ ['\n'] := by
  induction lines with
  | nil => rfl
  | cons line lines ih => simp_all [Text.unlines]

end Reading

section Texts

/-- The statements of the nodes, line by line. -/
def nodeText (cs : List Clause) : List Char :=
  cs.flatMap fun c => (nodeStatement c).toList ++ ['\n']

/-- The statements of the edges, line by line, and the end of the graph. -/
def edgeText (es : List (String × String)) : List Char :=
  (es.flatMap fun e => (edgeStatement e).toList ++ ['\n']) ++ "\x7d\n".toList

variable {rest : List Char} {cs : List Clause} {es : List (String × String)}

theorem toList_render (cs : List Clause) : (render cs).toList
    = "digraph propres \x7b\n  rankdir=BT;\n  node [shape=box, style=rounded];\n".toList
      ++ (nodeText cs ++ edgeText (edges cs)) := by
  simp [render, toList_unlines, lines, nodeText, edgeText, List.flatMap_map]

theorem readStatements?_nodeText (h : ∀ c ∈ cs, ¬ EndsInBackslash c.name) (count : ℕ)
    (rest : List Char) : readStatements? (count + cs.length) (nodeText cs ++ rest)
      = (readStatements? count rest).map fun g =>
        { g with nodes := (cs.map fun c => (c.name, color c)) ++ g.nodes } := by
  have hread : ∀ c ∈ cs, ∀ after, readStatement? ((nodeStatement c).toList ++ ['\n'] ++ after)
      = some (.node c.name (color c), after) := fun c hc after => by
    rw [List.append_assoc]
    exact readStatement?_node (h c hc) after
  simp only [nodeText, readStatements?_flatMap hread, foldr_cons_node]

theorem readStatements?_edgeText (h : ∀ e ∈ es, ¬ EndsInBackslash e.1 ∧ ¬ EndsInBackslash e.2)
    (count : ℕ) : readStatements? (count + 1 + es.length) (edgeText es) = some ⟨[], es⟩ := by
  have hend : readStatements? (count + 1) "\x7d\n".toList = some ⟨[], []⟩ := rfl
  have hread : ∀ e ∈ es, ∀ after, readStatement? ((edgeStatement e).toList ++ ['\n'] ++ after)
      = some (.edge e.1 e.2, after) := fun e he after => by
    rw [List.append_assoc]
    exact readStatement?_edge (h e he).1 (h e he).2 after
  rw [edgeText, readStatements?_flatMap hread, hend, Option.map_some, foldr_cons_edge,
    List.append_nil]

/-- A text has at least as many characters as statements. -/
theorem exists_length_flatMap {α : Type} {write : α → List Char} (h : ∀ x, write x ≠ [])
    (xs : List α) (rest : List Char) :
    ∃ k, (xs.flatMap write ++ rest).length = k + rest.length + xs.length := by
  induction xs with
  | nil => exact ⟨0, by simp⟩
  | cons x xs ih =>
    obtain ⟨k, hk⟩ := ih
    have hx := List.length_pos_iff.mpr (h x)
    refine ⟨(write x).length - 1 + k, ?_⟩
    rw [List.flatMap_cons, List.append_assoc, List.length_append, hk, List.length_cons]
    omega

theorem exists_length_nodeText (cs : List Clause) (rest : List Char) :
    ∃ k, (nodeText cs ++ rest).length = k + rest.length + cs.length :=
  exists_length_flatMap (fun c => by simp) cs rest

theorem exists_length_edgeText (es : List (String × String)) :
    ∃ k, (edgeText es).length = k + 1 + es.length := by
  obtain ⟨k, hk⟩ := exists_length_flatMap
    (fun e : String × String => show (edgeStatement e).toList ++ ['\n'] ≠ [] by simp) es
    "\x7d\n".toList
  exact ⟨k + 1, hk⟩

theorem readGraph?_render (hnodes : ∀ c ∈ cs, ¬ EndsInBackslash c.name)
    (hedges : ∀ e ∈ edges cs, ¬ EndsInBackslash e.1 ∧ ¬ EndsInBackslash e.2) :
    readGraph? (render cs) = some (graph cs) := by
  obtain ⟨k, hk⟩ := exists_length_nodeText cs (edgeText (edges cs))
  obtain ⟨l, hl⟩ := exists_length_edgeText (edges cs)
  rw [readGraph?, toList_render, skip?_append, Option.bind_eq_bind, Option.bind_some, hk,
    readStatements?_nodeText hnodes, hl, ← Nat.add_assoc, ← Nat.add_assoc,
    readStatements?_edgeText hedges, Option.map_some, List.append_nil]
  rfl

theorem mayFollow_texts (hnodes : ∀ c ∈ cs, c.name.toList.head? ≠ some ' ')
    (hedges : ∀ e ∈ es, e.1.toList.head? ≠ some ' ') : MayFollow (nodeText cs ++ edgeText es) := by
  rcases cs with _ | ⟨c, cs⟩
  · rcases es with _ | ⟨⟨parent, child⟩, es⟩
    · exact .inl rfl
    · simpa [nodeText, edgeText, edgeStatement] using
        mayFollow_quoteName (hedges _ List.mem_cons_self) _
  · simpa [nodeText, nodeStatement] using mayFollow_quoteName (hnodes c List.mem_cons_self) _

theorem readStatements?_backslash {c : Clause} (h : EndsInBackslash c.name) (hrest : MayFollow rest) :
    ∀ count, readStatements? count ((nodeStatement c).toList ++ '\n' :: rest) = none
  | 0 => rfl
  | count + 1 => by
    rw [readStatements?, readStatement?_backslash h hrest]
    exact if_neg (by simp [nodeStatement])

/-- If the name of a node ends in a backslash, no statement is read there, and so the text is not
read at all. -/
theorem readGraph?_render_eq_none (hbad : ∃ c ∈ cs, EndsInBackslash c.name)
    (hnodes : ∀ c ∈ cs, c.name.toList.head? ≠ some ' ')
    (hedges : ∀ e ∈ edges cs, e.1.toList.head? ≠ some ' ') : readGraph? (render cs) = none := by
  -- the first of these nodes, behind nodes that are read
  obtain ⟨front, c, back, hcs, hc, hfront⟩ : ∃ front c back, cs = front ++ c :: back
      ∧ EndsInBackslash c.name ∧ ∀ d ∈ front, ¬ EndsInBackslash d.name := by
    have hsome : (cs.find? fun c => EndsInBackslash c.name).isSome := by simpa using hbad
    obtain ⟨c, hc⟩ := Option.isSome_iff_exists.mp hsome
    obtain ⟨hc, front, back, hcs, hfront⟩ := List.find?_eq_some_iff_append.mp hc
    exact ⟨front, c, back, hcs, by simpa using hc, by simpa using hfront⟩
  have hrest : MayFollow (nodeText back ++ edgeText (edges cs)) :=
    mayFollow_texts (fun d hd => hnodes d (by simp [hcs, hd])) hedges
  have htext : nodeText cs ++ edgeText (edges cs) = nodeText front
      ++ ((nodeStatement c).toList ++ '\n' :: (nodeText back ++ edgeText (edges cs))) := by
    simp [nodeText, hcs]
  obtain ⟨k, hk⟩ := exists_length_nodeText front
    ((nodeStatement c).toList ++ '\n' :: (nodeText back ++ edgeText (edges cs)))
  rw [readGraph?, toList_render, skip?_append, Option.bind_eq_bind, Option.bind_some, htext, hk,
    readStatements?_nodeText hfront, readStatements?_backslash hc hrest, Option.map_none]

/-- Where edges join nodes and no name begins with a blank, the text of a graph says what the graph
is, unless the name of a node ends in a backslash. Then it cannot be read. -/
theorem readGraph?_render_eq (hnames : ∀ c ∈ cs, c.name.toList.head? ≠ some ' ')
    (hdeclared : ∀ e ∈ edges cs, e.1 ∈ cs.map Clause.name ∧ e.2 ∈ cs.map Clause.name) :
    readGraph? (render cs)
      = if ∃ c ∈ cs, EndsInBackslash c.name then none else some (graph cs) := by
  split_ifs with hbad
  · refine readGraph?_render_eq_none hbad hnames fun e he => ?_
    obtain ⟨c, hc, heq⟩ := List.mem_map.mp (hdeclared e he).1
    exact heq ▸ hnames c hc
  · have hgood : ∀ name ∈ cs.map Clause.name, ¬ EndsInBackslash name := by
      simpa using hbad
    exact readGraph?_render (fun c hc => hgood _ (List.mem_map_of_mem hc)) fun e he =>
      ⟨hgood _ (hdeclared e he).1, hgood _ (hdeclared e he).2⟩

end Texts

end Resolution.DerivationGraph
