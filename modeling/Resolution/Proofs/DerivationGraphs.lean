import Resolution.Proofs.GraphTexts
import Resolution.Proofs.Limits
import Resolution.Proofs.Listings
import Resolution.Proofs.Provenance

/-!
# Derivation graphs of closures

A graph knows clauses by their names alone. Clauses over words that print alike have the same
normal form, as reading gives it back (`Clause.literals_eq_of_name_eq`), so no two clauses of a
closure share a name. What is derived names a clause of the knowledge base and another clause, since
no normal form clashes with itself, and both were known a round earlier (`traced_closure`). So steps
increase along the edges, and nothing leads back (`Traced.wellFormed`).

So the graph is as it should be for all lines that can be read. Its text says so as long as no name
ends in a backslash, which an atom on a line may (`DerivationGraph.readGraph?_render_eq`).
-/

namespace Resolution

/-- The clauses hold the knowledge base and otherwise only what is derived, later than both its
parents, from a clause of the knowledge base and another one. -/
structure Traced (kb cs : List Clause) : Prop where
  names : (cs.map Clause.name).Nodup
  given : ∀ k ∈ kb, k ∈ cs ∧ k.source = [] ∧ k.step = 0
  derived : ∀ c ∈ cs, c ∉ kb → ∃ k ∈ kb, ∃ q ∈ cs, c.source = [k.name, q.name] ∧ k ≠ q
    ∧ k.step < c.step ∧ q.step < c.step

namespace DerivationGraph

namespace Graph

variable (g : Graph)

/-- The edges that lead to the node with this name. -/
def incoming (name : String) : List (String × String) :=
  g.edges.filter (·.2 = name)

/-- The graph shows how the clauses were derived from the knowledge base. -/
structure WellFormed (kb cs : List Clause) : Prop where
  /-- Every clause is a node, in the order of the clauses. -/
  nodes : g.nodes.map Prod.fst = cs.map Clause.name
  names : (g.nodes.map Prod.fst).Nodup
  edges : g.edges.Nodup
  declared : ∀ e ∈ g.edges, e.1 ∈ g.nodes.map Prod.fst ∧ e.2 ∈ g.nodes.map Prod.fst
  given : ∀ k ∈ kb, (k.name, "lightgray") ∈ g.nodes ∧ g.incoming k.name = []
  derived : ∀ c ∈ cs, c ∉ kb → (c.name, "lightblue") ∈ g.nodes ∧ (g.incoming c.name).length = 2
    ∧ ∃ k ∈ kb, (k.name, c.name) ∈ g.incoming c.name
  acyclic : ∀ name, ¬ Relation.TransGen (fun a b => (a, b) ∈ g.edges) name name

end Graph

theorem nodes_graph (cs : List Clause) : (graph cs).nodes.map Prod.fst = cs.map Clause.name := by
  simp [graph]

theorem mem_nodes_graph {cs : List Clause} {c : Clause} (hc : c ∈ cs) :
    (c.name, color c) ∈ (graph cs).nodes :=
  List.mem_map_of_mem hc

theorem nodup_edges (cs : List Clause) : (edges cs).Nodup :=
  nodup_eraseDups _

theorem mem_edges {cs : List Clause} {a b : String} :
    (a, b) ∈ edges cs ↔ ∃ c ∈ cs, a ∈ c.source ∧ c.name = b := by
  simp [edges, List.mem_eraseDups]

end DerivationGraph

namespace Traced

open DerivationGraph

variable {kb cs : List Clause} {c d : Clause} {a b : String}

variable (h : Traced kb cs)
include h

theorem eq_of_name_eq (hc : c ∈ cs) (hd : d ∈ cs) (heq : c.name = d.name) : c = d :=
  List.inj_on_of_nodup_map h.names hc hd heq

theorem step_lt_of_mem_edges (he : (a, b) ∈ edges cs) :
    ∃ c ∈ cs, ∃ d ∈ cs, c.name = a ∧ d.name = b ∧ c.step < d.step := by
  obtain ⟨d, hd, ha, rfl⟩ := mem_edges.mp he
  by_cases hkb : d ∈ kb
  · rw [(h.given d hkb).2.1] at ha
    exact absurd ha List.not_mem_nil
  · obtain ⟨k, hk, q, hq, hsource, -, hkd, hqd⟩ := h.derived d hd hkb
    rw [hsource, List.mem_pair] at ha
    rcases ha with rfl | rfl
    · exact ⟨k, (h.given k hk).1, d, hd, rfl, rfl, hkd⟩
    · exact ⟨q, hq, d, hd, rfl, rfl, hqd⟩

theorem step_lt_of_transGen (hab : Relation.TransGen (fun a b => (a, b) ∈ edges cs) a b) :
    ∃ c ∈ cs, ∃ d ∈ cs, c.name = a ∧ d.name = b ∧ c.step < d.step := by
  induction hab with
  | single he => exact h.step_lt_of_mem_edges he
  | tail _ hedge ih =>
    obtain ⟨c, hc, d, hd, rfl, rfl, hcd⟩ := ih
    obtain ⟨m, hm, e, he, heq, rfl, hme⟩ := h.step_lt_of_mem_edges hedge
    obtain rfl := h.eq_of_name_eq hm hd heq
    exact ⟨c, hc, e, he, rfl, rfl, hcd.trans hme⟩

theorem mem_incoming (hc : c ∈ cs) {e : String × String} :
    e ∈ (graph cs).incoming c.name ↔ e.1 ∈ c.source ∧ e.2 = c.name := by
  obtain ⟨a, b⟩ := e
  rw [Graph.incoming, List.mem_filter, graph, mem_edges, decide_eq_true_eq]
  constructor
  · rintro ⟨⟨d, hd, ha, rfl⟩, heq⟩
    obtain rfl := h.eq_of_name_eq hd hc heq
    exact ⟨ha, rfl⟩
  · rintro ⟨ha, rfl⟩
    exact ⟨⟨c, hc, ha, rfl⟩, rfl⟩

theorem length_incoming (hc : c ∈ cs) (hkb : c ∉ kb) :
    ((graph cs).incoming c.name).length = 2 := by
  obtain ⟨k, hk, q, hq, hsource, hne, -⟩ := h.derived c hc hkb
  have hnames : k.name ≠ q.name := fun heq => hne (h.eq_of_name_eq (h.given k hk).1 hq heq)
  have hperm : ((graph cs).incoming c.name).Perm [(k.name, c.name), (q.name, c.name)] := by
    have hedges : ((graph cs).incoming c.name).Nodup := (nodup_edges cs).filter _
    refine (List.perm_ext_iff_of_nodup hedges (by simp [hnames])).mpr fun ⟨a, b⟩ => ?_
    rw [h.mem_incoming hc, hsource, List.mem_pair, List.mem_pair, Prod.mk.injEq, Prod.mk.injEq,
      or_and_right]
  exact hperm.length_eq

theorem declared {e : String × String} (he : e ∈ edges cs) :
    e.1 ∈ cs.map Clause.name ∧ e.2 ∈ cs.map Clause.name := by
  obtain ⟨c, hc, d, hd, hcname, hdname, -⟩ := h.step_lt_of_mem_edges he
  exact ⟨List.mem_map.mpr ⟨c, hc, hcname⟩, List.mem_map.mpr ⟨d, hd, hdname⟩⟩

theorem wellFormed : (graph cs).WellFormed kb cs where
  nodes := nodes_graph cs
  names := by
    rw [nodes_graph]
    exact h.names
  edges := nodup_edges cs
  declared e he := by
    rw [nodes_graph]
    exact h.declared he
  given k hk := by
    obtain ⟨hmem, hsource, hstep⟩ := h.given k hk
    have hcolor : color k = "lightgray" := if_pos hstep
    refine ⟨hcolor ▸ mem_nodes_graph hmem, List.eq_nil_iff_forall_not_mem.mpr fun e he => ?_⟩
    have hparent := ((h.mem_incoming hmem).mp he).1
    rw [hsource] at hparent
    exact List.not_mem_nil hparent
  derived c hc hkb := by
    obtain ⟨k, hk, q, -, hsource, -, hstep, -⟩ := h.derived c hc hkb
    have hzero := (h.given k hk).2.2
    have hcolor : color c = "lightblue" := if_neg (by omega)
    refine ⟨hcolor ▸ mem_nodes_graph hc, h.length_incoming hc hkb, k, hk,
      (h.mem_incoming hc).mpr ⟨?_, rfl⟩⟩
    simp [hsource]
  acyclic name hcycle := by
    obtain ⟨c, hc, d, hd, rfl, heq, hlt⟩ := h.step_lt_of_transGen hcycle
    obtain rfl := h.eq_of_name_eq hd hc heq
    exact lt_irrefl _ hlt

theorem nodup_nodeStatements : (cs.map nodeStatement).Nodup :=
  List.pairwise_map.mpr
    ((List.pairwise_map.mp h.names).imp fun hne heq => hne (name_eq_of_nodeStatement_eq heq))

end Traced

section Names

theorem Literal.exists_name_eq_cons {l : Literal} (h : IsWord l.atom) :
    ∃ c cs, l.name.toList = c :: cs ∧ c ≠ ' ' := by
  unfold Literal.name
  split_ifs
  · obtain ⟨c, cs, hatom⟩ := List.exists_cons_of_ne_nil h.nonempty
    refine ⟨c, cs, hatom, ?_⟩
    rintro rfl
    exact absurd (h.letters ' ' (by simp [hatom])) (by decide)
  · exact ⟨'(', ("not " ++ l.atom ++ ")").toList, by simp, by decide⟩

theorem Clause.head?_name_ne {c : Clause} (h : ∀ l ∈ c.literals, IsWord l.atom) :
    c.name.toList.head? ≠ some ' ' := by
  unfold Clause.name
  split_ifs
  · decide
  rw [Clause.toList_format]
  rcases hls : c.literals with _ | ⟨l, ls⟩
  · simp
  · obtain ⟨d, ds, hname, hd⟩ := Literal.exists_name_eq_cons (h l (by simp [hls]))
    cases ls <;> simp [hname, hd, List.intercalate_cons_cons]

end Names

open DerivationGraph

section Closures

variable {cs : List Clause}

theorem traced_closure (limit : Option ℤ) (stop : StopCondition)
    (hcs : ∀ c ∈ cs, c.source = [] ∧ c.step = 0)
    (hwords : ∀ c ∈ (closure cs limit stop).toList, ∀ l ∈ c.literals, IsWord l.atom) :
    Traced (KnowledgeBase.ofList cs).toList (closure cs limit stop).toList where
  names := by
    have hdistinct := List.pairwise_map.mp (closure cs limit stop).known.distinct
    refine List.pairwise_map.mpr (hdistinct.imp_of_mem fun {c d} hc hd hne heq => hne ?_)
    exact Clause.literals_eq_of_name_eq (hwords c hc) (hwords d hd) (normalForm_of_mem_closure hc)
      (normalForm_of_mem_closure hd)
      (Clause.isEmpty_eq_false_iff.mpr (literals_ne_nil_of_mem_closure hc))
      (Clause.isEmpty_eq_false_iff.mpr (literals_ne_nil_of_mem_closure hd)) heq
  given k hk := ⟨mem_closure_of_mem_kb hk, KnowledgeBase.source_step_of_mem hcs hk⟩
  derived c hc hkb := by
    obtain ⟨n, hknown⟩ := exists_closure_eq_stage cs limit stop
    rw [Closure.toList, hknown] at hc ⊢
    have hzero : ∀ k ∈ (KnowledgeBase.ofList cs).toList, k.step = 0 := fun k hk =>
      (KnowledgeBase.source_step_of_mem hcs hk).2
    have hlow : ∀ k ∈ (KnowledgeBase.ofList cs).clauses.toList, k.step < 1 := fun k hk => by
      rw [hzero k hk]
      exact one_pos
    rcases mem_stage_cases hc with hc | ⟨i, hi, hc⟩
    · exact absurd hc hkb
    · obtain ⟨k, hk, q, hq, hsource, ⟨r, hr, -⟩, -⟩ := exists_parents_of_mem_added hc
      have hstep := step_of_mem_added hc
      have hqstep := step_lt_of_mem_stage hlow hq
      refine ⟨k, hk, q, (stage_isPrefix _ 1 _ hi.le).subset hq, hsource, ?_, ?_, by omega⟩
      · rintro rfl
        rw [(KnowledgeBase.normalForm_of_mem hk).resolve_self] at hr
        exact List.not_mem_nil hr
      · have := hzero k hk
        omega

theorem source_step_of_ofLines {lines : List Line} {reading : Reading}
    (h : Reading.ofLines lines = .ok reading) :
    ∀ c ∈ reading.kb.toList, c.source = [] ∧ c.step = 0 := by
  obtain ⟨cs, hcs, rfl⟩ := map_eq_ok_iff.mp h
  exact fun c hc =>
    KnowledgeBase.source_step_of_mem (fun d hd => source_step_of_mem_readLines hcs hd) hc

end Closures

/-- If the knowledge base was read from lines, the graph of its closure is well formed, wherever the
run ends, and different nodes and edges have different statements. The text of these statements says
what the graph is, unless some clause has a name that ends in a backslash. Then it cannot be read. -/
theorem wellFormed_closure (lines : List Line) (reading : Reading) (limit : Option ℤ)
    (stop : StopCondition) (h : Reading.ofLines lines = .ok reading) :
    let kb := KnowledgeBase.ofList reading.kb.toList
    let cs := (closure reading.kb.toList limit stop).toList
    (graph cs).WellFormed kb.toList cs
      ∧ (cs.map nodeStatement).Nodup ∧ ((edges cs).map edgeStatement).Nodup
      ∧ readGraph? (render cs)
        = if ∃ c ∈ cs, EndsInBackslash c.name then none else some (graph cs) := by
  intro kb cs
  have hwords : ∀ c ∈ cs, ∀ l ∈ c.literals, IsWord l.atom :=
    fun c hc l hl => isWord_of_mem_closure h hc hl
  have htraced : Traced kb.toList cs := traced_closure limit stop (source_step_of_ofLines h) hwords
  exact ⟨htraced.wellFormed, htraced.nodup_nodeStatements,
    (nodup_edges cs).map edgeStatement_injective,
    readGraph?_render_eq (fun c hc => Clause.head?_name_ne (hwords c hc)) fun e => htraced.declared⟩

/-- Two lines that derive `b`, from an atom that a graph writes with a backslash. -/
theorem wellFormed_closure_quoted :
    let lines : List Line := [.text "(a\"c)", .text "; a comment", .text "(b (not a\"c))"]
    let reading : Reading := ⟨2, .ofList [⟨[⟨true, "a\"c"⟩], [], 0⟩,
      ⟨[⟨true, "b"⟩, ⟨false, "a\"c"⟩], [], 0⟩]⟩
    let cs := (closure reading.kb.toList).toList
    let g : Graph := ⟨[("a\"c", "lightgray"), ("(not a\"c) b", "lightgray"), ("b", "lightblue")],
      [("a\"c", "b"), ("(not a\"c) b", "b")]⟩
    Reading.ofLines lines = .ok reading
      ∧ g.WellFormed (KnowledgeBase.ofList reading.kb.toList).toList cs
      ∧ readGraph? (render cs) = some g := by
  intro lines reading cs g
  have hreading : Reading.ofLines lines = .ok reading := rfl
  have hgraph : graph cs = g := by decide
  have hnames : ¬ ∃ c ∈ cs, EndsInBackslash c.name := by decide
  obtain ⟨hformed, -, -, hread⟩ := wellFormed_closure lines reading none .never hreading
  rw [if_neg hnames] at hread
  exact ⟨hreading, hgraph ▸ hformed, hgraph ▸ hread⟩

/-- Two lines that derive `b` from an atom that ends in a backslash. The closing quote of the first
name is taken for a part of it, and the text says nothing about nodes and edges. -/
theorem readGraph?_closure_backslash :
    let lines : List Line := [.text "(a\\)", .text "((not a\\) b)"]
    let reading : Reading := ⟨2, .ofList [⟨[⟨true, "a\\"⟩], [], 0⟩,
      ⟨[⟨false, "a\\"⟩, ⟨true, "b"⟩], [], 0⟩]⟩
    let cs := (closure reading.kb.toList).toList
    Reading.ofLines lines = .ok reading
      ∧ graph cs
        = ⟨[("a\\", "lightgray"), ("(not a\\) b", "lightgray"), ("b", "lightblue")],
          [("a\\", "b"), ("(not a\\) b", "b")]⟩
      ∧ readGraph? (render cs) = none := by
  intro lines reading cs
  have hreading : Reading.ofLines lines = .ok reading := rfl
  exact ⟨hreading, by decide, readGraph?_render_eq_none (by decide) (by decide) (by decide)⟩

end Resolution
