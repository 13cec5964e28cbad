import Mathlib
import Exploration.Proofs.Candidates

/-!
# Paths found by the search over the federation of submaps

`Federation.search` is a best-first search. Its tables of costs and predecessors are lists whose
latest entry for a vertex comes first, and it closes each vertex once. When it closes the goal
mark it reads the path back through the predecessors. This module proves that such a path is a
genuine path of the search graph (`search_success_path`): it starts at an entry vertex, follows
links (`Link`: an edge of a submap's graph, or a bridge to another submap), leaves the search
graph at an exit vertex for the goal mark, passes no exit vertex before, and repeats no vertex;
its waypoints are the positions of its vertices, and the search stopped within its iteration
limit.

The argument is an invariant of the search states (`SearchInv`): a predecessor is only ever
recorded for a vertex not yet closed, and it is itself closed, so predecessors are closed before
the vertices they lead to and the chain read back runs through closed vertices in the order they
were closed. The invariant holds of the first state (`searchInv_start`), and every round keeps it
(`SearchInv.close`, `SearchInv.relax`, `SearchInv.relaxAll`): every step the search lists out
of a vertex is a step of the search graph (`steps_graphStep`).

Two things the theorem needs are not checked by the code. The ids must be integers, as the
source annotates them, so that `==` on vertices is equality (`IntegerIds`). And no real vertex
may be the goal mark `(-1, -1)` (`GoalMarkFree`): a vertex of id `-1` in a submap of id `-1`
ends the search when it is closed, as if it were the goal.
-/

namespace Exploration

namespace VertexRef

variable {β : Type}

@[simp] theorem lookup_nil (v : VertexRef) : lookup ([] : List (VertexRef × β)) v = none := rfl

theorem lookup_cons (k : VertexRef) (x : β) (table : List (VertexRef × β)) (v : VertexRef) :
    lookup ((k, x) :: table) v = if k == v then some x else lookup table v := by
  unfold lookup
  rw [List.find?_cons]
  cases k == v <;> rfl

/-- A value found for a vertex is that of an entry whose vertex equals it. -/
theorem exists_of_lookup_eq_some {table : List (VertexRef × β)} {v : VertexRef} {x : β}
    (h : lookup table v = some x) : ∃ k, (k, x) ∈ table ∧ (k == v) = true := by
  unfold lookup at h
  obtain ⟨e, he, rfl⟩ := Option.map_eq_some_iff.1 h
  exact ⟨e.1, List.mem_of_find?_eq_some he,
    List.find?_some (p := fun e : VertexRef × β => e.1 == v) he⟩

/-- Nothing is found for a vertex only when no entry's vertex equals it. -/
theorem lookup_eq_none {table : List (VertexRef × β)} {v : VertexRef} :
    lookup table v = none ↔ ∀ e ∈ table, (e.1 == v) = false := by
  unfold lookup
  rw [Option.map_eq_none_iff, List.find?_eq_none]
  simp

end VertexRef

namespace OpenQueue

variable {K : Type} [LT K] [DecidableRel (α := K) (· < ·)]

/-- Inserting into the queue adds exactly the entry. -/
theorem mem_insert {q : OpenQueue K} {x e : K × Nat × VertexRef} :
    e ∈ q.insert x ↔ e = x ∨ e ∈ q := by
  induction q with
  | nil => simp [insert]
  | cons y q ih =>
    unfold insert
    split
    · simp
    · rw [List.mem_cons, ih, List.mem_cons]
      tauto

end OpenQueue

namespace SearchState

variable {K : Type}

/-- The path read back depends on the predecessors only. -/
theorem pathTo_congr {st st' : SearchState K} (h : st.parent = st'.parent) (v : VertexRef) :
    ∀ fuel, st.pathTo v fuel = st'.pathTo v fuel := by
  intro fuel
  induction fuel generalizing v with
  | zero => rfl
  | succ fuel ih =>
    simp only [pathTo, h]
    split <;> simp [ih]

/-- One step back through the predecessor of a vertex. -/
theorem pathTo_succ_of_lookup {st : SearchState K} {v u : VertexRef}
    (h : VertexRef.lookup st.parent v = some u) (n : Nat) :
    st.pathTo v (n + 1) = st.pathTo u n ++ [v] := by
  simp only [pathTo, h]

/-- A vertex without a predecessor is its own path. -/
theorem pathTo_succ_of_lookup_none {st : SearchState K} {v : VertexRef}
    (h : VertexRef.lookup st.parent v = none) (n : Nat) : st.pathTo v (n + 1) = [v] := by
  simp only [pathTo, h]

variable [Add K] [LT K] [DecidableRel (α := K) (· < ·)] [Unreached K]

/-- Queuing a vertex with no predecessor either changes nothing or, at a cost below its own,
records the cost and queues it. -/
theorem offer_none_cases (st : SearchState K) (v : VertexRef) (g h : K) :
    st.offer v none g h = st ∨
      (g < st.costOf v ∧ st.offer v none g h =
        { st with cost := (v, g) :: st.cost, tickets := st.tickets + 1,
                  queue := st.queue.insert (g + h, st.tickets + 1, v) }) := by
  unfold offer
  split
  · rename_i hlt
    exact .inr ⟨hlt, rfl⟩
  · exact .inl rfl

/-- A step from a closed vertex either changes nothing, or, for a vertex not closed and at a
cost below its own, records the cost and the predecessor and queues it. -/
theorem relax_cases (st : SearchState K) (u v : VertexRef) (step h : K) :
    st.relax u v step h = st ∨
      (st.closed.contains v = false ∧ st.costOf u + step < st.costOf v ∧ st.relax u v step h =
        { st with cost := (v, st.costOf u + step) :: st.cost, parent := (v, u) :: st.parent,
                  tickets := st.tickets + 1,
                  queue := st.queue.insert (st.costOf u + step + h, st.tickets + 1, v) }) := by
  unfold relax offer
  split
  · exact .inl rfl
  · rename_i hclosed
    split
    · rename_i hlt
      exact .inr ⟨by simpa using hclosed, hlt, rfl⟩
    · exact .inl rfl

@[simp] theorem relax_closed (st : SearchState K) (u v : VertexRef) (step h : K) :
    (st.relax u v step h).closed = st.closed := by
  rcases relax_cases st u v step h with h | ⟨-, -, h⟩ <;> rw [h]

@[simp] theorem relax_iterations (st : SearchState K) (u v : VertexRef) (step h : K) :
    (st.relax u v step h).iterations = st.iterations := by
  rcases relax_cases st u v step h with h | ⟨-, -, h⟩ <;> rw [h]

@[simp] theorem relaxAll_nil (st : SearchState K) (u : VertexRef) : st.relaxAll u [] = st := rfl

theorem relaxAll_cons (st : SearchState K) (u : VertexRef) (s : VertexRef × K × K)
    (L : List (VertexRef × K × K)) :
    st.relaxAll u (s :: L) = (st.relax u s.1 s.2.1 s.2.2).relaxAll u L := rfl

@[simp] theorem relaxAll_closed (st : SearchState K) (u : VertexRef) (L : List (VertexRef × K × K)) :
    (st.relaxAll u L).closed = st.closed := by
  induction L generalizing st with
  | nil => rfl
  | cons s L ih => rw [relaxAll_cons, ih, relax_closed]

@[simp] theorem relaxAll_iterations (st : SearchState K) (u : VertexRef)
    (L : List (VertexRef × K × K)) : (st.relaxAll u L).iterations = st.iterations := by
  induction L generalizing st with
  | nil => rfl
  | cons s L ih => rw [relaxAll_cons, ih, relax_iterations]

end SearchState

namespace SkeletonGraph

/-- The edge found for an id is one of the graph's. -/
theorem mem_of_edge_ok {K : Type} {g : SkeletonGraph K} {id : Value} {e : SkeletonEdge}
    (h : g.edge id = .ok e) : e ∈ g.edges := by
  rw [edge] at h
  obtain ⟨key, -, h⟩ := bind_eq_ok.1 h
  split at h
  · rename_i found hfound
    cases h
    exact List.mem_of_find?_eq_some hfound
  · cases h

/-- The vertex found for an id is one of the graph's, with an id equal to it. -/
theorem mem_of_vertex_ok {K : Type} {g : SkeletonGraph K} {id : Value} {x : SkeletonVertex K}
    (h : g.vertex id = .ok x) : x ∈ g.vertices ∧ x.id.same id = true := by
  rw [vertex] at h
  obtain ⟨key, hkey, hfind⟩ := bind_eq_ok.1 h
  have hkey' : key = id := by
    unfold Value.toKey at hkey
    split at hkey
    · cases hkey
      rfl
    · cases hkey
  subst hkey'
  split at hfind
  · rename_i y hy
    cases hfind
    exact ⟨List.mem_of_find?_eq_some hy, by simpa using List.find?_some hy⟩
  · cases hfind

end SkeletonGraph

theorem SkeletonEdge.other_eq (e : SkeletonEdge) (v : Value) :
    e.other v = e.start ∨ e.other v = e.stop := by
  unfold SkeletonEdge.other
  split
  · exact .inr rfl
  · exact .inl rfl

namespace Federation

namespace View

variable {L K : Type} [Add L] [Sub L] [Mul L] [OfNat L 0] [MulAdd L] [OfNat K 0]
  {V : View L K} {goal : Vec3 L}

omit [OfNat K 0] in
/-- A step along an edge goes to the vertex at the edge's other end. -/
theorem edgeStep_ok {s : Submap L} {sid : Value} {vx : SkeletonVertex L} {eid : Nat}
    {x : VertexRef × K × K} (h : V.edgeStep goal s sid vx eid = .ok x) :
    ∃ e nv, s.graph.edge (.int eid) = .ok e ∧ s.graph.vertex (e.other vx.id) = .ok nv ∧
      x = (⟨sid, e.other vx.id⟩, V.length (nv.point - vx.point),
        V.length (goal - position s (e.other vx.id))) := by
  unfold edgeStep at h
  obtain ⟨e, he, h⟩ := bind_eq_ok.1 h
  obtain ⟨nv, hnv, h⟩ := bind_eq_ok.1 h
  rw [pure_eq_ok] at h
  exact ⟨e, nv, he, hnv, h.symm⟩

/-- **The steps out of a vertex**: from an exit vertex, the goal mark alone; from any other, found
in its submap, the steps along its edges, then, when it has few edges, the bridges from its
position. -/
theorem steps_cases {exits : List VertexRef} {u : VertexRef} {Ls : List (VertexRef × K × K)}
    (h : V.steps goal exits u = .ok Ls) :
    (exits.contains u = true ∧
      Ls = [(VertexRef.goal, V.length (goal - placeOf V.find goal u), 0)]) ∨
    (exits.contains u = false ∧ ∃ s vx edges, V.find u.submap = .ok s ∧
      s.graph.vertex u.vertex = .ok vx ∧ vx.edges.mapM (V.edgeStep goal s u.submap vx) = .ok edges ∧
      ((V.few vx.edges.length = .ok true ∧ ∃ bs, V.bridgesAt u.submap (placeOf V.find goal u) = .ok bs ∧
          Ls = edges ++ bs.map fun b => (b.1, b.2.2, V.length (goal - b.2.1))) ∨
        (V.few vx.edges.length = .ok false ∧ Ls = edges))) := by
  unfold steps at h
  split at h
  · rename_i hexit
    rw [pure_eq_ok] at h
    exact .inl ⟨hexit, h.symm⟩
  · rename_i hexit
    obtain ⟨s, hs, h⟩ := bind_eq_ok.1 h
    obtain ⟨vx, hvx, h⟩ := bind_eq_ok.1 h
    obtain ⟨edges, hedges, h⟩ := bind_eq_ok.1 h
    obtain ⟨few, hfew, h⟩ := bind_eq_ok.1 h
    refine .inr ⟨Bool.eq_false_iff.2 hexit, s, vx, edges, hs, hvx, hedges, ?_⟩
    split at h
    · rename_i hyes
      obtain ⟨bs, hbs, h⟩ := bind_eq_ok.1 h
      rw [pure_eq_ok] at h
      exact .inl ⟨hyes ▸ hfew, bs, hbs, h.symm⟩
    · rename_i hno
      rw [pure_eq_ok] at h
      exact .inr ⟨Bool.eq_false_iff.2 hno ▸ hfew, h.symm⟩

end View

section Search

variable (c : SubmapCollection) (m : VoxelMap) (cfg : SearchSettings) (goal : Vec3)

/-- A link of the search graph out of a vertex: along an edge of its submap's graph to the
vertex at the other end, or, when it has few enough edges, over a bridge (`IsBridge`) from its
position to a vertex of another submap. -/
inductive Link : VertexRef → VertexRef → Prop
  | edge {u : VertexRef} {s : Submap} {vx nv : SkeletonVertex} {eid : Nat} {e : SkeletonEdge} :
      c.find u.submap = .ok s → s.graph.vertex u.vertex = .ok vx → eid ∈ vx.edges →
      s.graph.edge (.int eid) = .ok e → s.graph.vertex (e.other vx.id) = .ok nv →
      Link u ⟨u.submap, e.other vx.id⟩
  | bridge {u v : VertexRef} {s : Submap} {vx : SkeletonVertex} {w : Vec3} {d : Float} :
      c.find u.submap = .ok s → s.graph.vertex u.vertex = .ok vx →
      Value.atMost (.int vx.edges.length) cfg.linkingEdges = .ok true →
      IsBridge c m cfg u.submap (vertexPosition c goal u) v w d → Link u v

variable {c m cfg goal} in
/-- The vertex at the other end of an edge of a submap of the collection has integer ids and is
not the goal mark. -/
theorem edgeTarget_real (hids : IntegerIds c m) (hfree : GoalMarkFree c) {u : VertexRef}
    {s : Submap} {id : Value} {e : SkeletonEdge} (hu : u.IsInt) (hs : c.find u.submap = .ok s)
    (he : s.graph.edge id = .ok e) (v : Value) :
    (VertexRef.mk u.submap (e.other v)).IsInt ∧ VertexRef.mk u.submap (e.other v) ≠ VertexRef.goal := by
  obtain ⟨hmem, hsame⟩ := SubmapCollection.mem_of_find_ok hs
  have hedge := SkeletonGraph.mem_of_edge_ok he
  obtain ⟨⟨a, ha⟩, ⟨b, hb⟩⟩ := hids.edgeEnds s hmem e hedge
  obtain ⟨i, j, rfl⟩ := hu
  refine ⟨?_, ?_⟩
  · rcases SkeletonEdge.other_eq e v with h | h
    · exact ⟨i, a, by rw [h, ha]⟩
    · exact ⟨i, b, by rw [h, hb]⟩
  · -- the goal mark would make this a vertex `-1` of a submap of id `-1`
    intro hgoal
    simp only [VertexRef.goal, VertexRef.mk.injEq] at hgoal
    obtain ⟨hsub, hend⟩ := hgoal
    have hfree' := (hfree s hmem (by simpa [hsub] using hsame)).2 e hedge
    rcases SkeletonEdge.other_eq e v with h | h
    · exact hfree'.1 (h ▸ hend)
    · exact hfree'.2 (h ▸ hend)

variable (starts exits : List VertexRef)

/-- What every state of a search from the entry vertices `starts` to the exit vertices `exits`
keeps. Queued and closed vertices are entry vertices or have a predecessor; predecessors are
closed, and were closed before the vertex they lead to; a predecessor of the goal mark is an exit
vertex, and any other is linked to its vertex and is no exit vertex. -/
structure SearchInv (st : SearchState) : Prop where
  queued : ∀ e ∈ st.queue, e.2.2.IsInt ∧ (e.2.2 ∈ starts ∨ ∃ p, (e.2.2, p) ∈ st.parent)
  closed : ∀ v ∈ st.closed,
    v.IsInt ∧ v ≠ VertexRef.goal ∧ (v ∈ starts ∨ ∃ p, (v, p) ∈ st.parent)
  closed_nodup : st.closed.Nodup
  parent_closed : ∀ e ∈ st.parent, e.1.IsInt ∧ e.2 ∈ st.closed
  parent_before : ∀ e ∈ st.parent, ∀ xs ys, st.closed = xs ++ e.1 :: ys → e.2 ∈ ys
  parent_step : ∀ e ∈ st.parent, (e.1 = VertexRef.goal ∧ e.2 ∈ exits) ∨
    (e.1 ≠ VertexRef.goal ∧ Link c m cfg goal e.2 e.1 ∧ e.2 ∉ exits)
  iterations : st.iterations = st.closed.length

variable {c m cfg goal starts exits}

theorem searchInv_empty : SearchInv c m cfg goal starts exits {} where
  queued := by simp
  closed := by simp
  closed_nodup := List.nodup_nil
  parent_closed := by simp
  parent_before := by simp
  parent_step := by simp
  iterations := rfl

namespace SearchInv

variable {st : SearchState}

/-- A closed vertex is not queued again: a vertex of integer ids is closed exactly when it is a
member of the closed list. -/
theorem contains_closed_iff (hinv : SearchInv c m cfg goal starts exits st) {v : VertexRef}
    (hv : v.IsInt) : st.closed.contains v = true ↔ v ∈ st.closed :=
  VertexRef.contains_iff_mem (fun w hw => (hinv.closed w hw).1) hv

/-- Dropping the first queued entry keeps the invariant. -/
theorem pop (hinv : SearchInv c m cfg goal starts exits st) {e : Float × Nat × VertexRef}
    {rest : OpenQueue} (hq : st.queue = e :: rest) :
    SearchInv c m cfg goal starts exits { st with queue := rest } where
  queued x hx := hinv.queued x (hq ▸ List.mem_cons_of_mem _ hx)
  closed := hinv.closed
  closed_nodup := hinv.closed_nodup
  parent_closed := hinv.parent_closed
  parent_before := hinv.parent_before
  parent_step := hinv.parent_step
  iterations := hinv.iterations

/-- Closing the first queued vertex, when it is neither closed nor the goal mark, keeps the
invariant. -/
theorem close (hinv : SearchInv c m cfg goal starts exits st) {f : Float} {t : Nat}
    {u : VertexRef} {rest : OpenQueue} (hq : st.queue = (f, t, u) :: rest)
    (hopen : st.closed.contains u = false) (hu : u ≠ VertexRef.goal) :
    SearchInv c m cfg goal starts exits
      { st with queue := rest, closed := u :: st.closed, iterations := st.iterations + 1 } := by
  have hqu := hinv.queued (f, t, u) (hq ▸ List.mem_cons_self ..)
  have hnew : u ∉ st.closed := by
    rw [← hinv.contains_closed_iff hqu.1]
    simp [hopen]
  refine ⟨fun x hx => hinv.queued x (hq ▸ List.mem_cons_of_mem _ hx), ?_,
    List.nodup_cons.2 ⟨hnew, hinv.closed_nodup⟩,
    fun e he => ⟨(hinv.parent_closed e he).1, List.mem_cons_of_mem _ (hinv.parent_closed e he).2⟩,
    ?_, hinv.parent_step, by simp [hinv.iterations]⟩
  · intro v hv
    rcases List.mem_cons.1 hv with rfl | hv
    · exact ⟨hqu.1, hu, hqu.2⟩
    · exact hinv.closed v hv
  · -- the vertex closed now is the newest: its predecessors were closed before it
    intro e he xs ys hsplit
    cases xs with
    | nil =>
      rw [List.nil_append, List.cons.injEq] at hsplit
      rw [← hsplit.2]
      exact (hinv.parent_closed e he).2
    | cons x xs =>
      rw [List.cons_append, List.cons.injEq] at hsplit
      exact hinv.parent_before e he xs ys hsplit.2

/-- A step out of a closed vertex `u` to `v` keeps the invariant when it is a step of the search
graph: to the goal mark from an exit vertex, or along a link from a vertex that is no exit. -/
theorem relax (hinv : SearchInv c m cfg goal starts exits st) {u v : VertexRef} {step h : Float}
    (hu : u ∈ st.closed) (hv : v.IsInt)
    (hstep : (v = VertexRef.goal ∧ u ∈ exits) ∨
      (v ≠ VertexRef.goal ∧ Link c m cfg goal u v ∧ u ∉ exits)) :
    SearchInv c m cfg goal starts exits (st.relax u v step h) := by
  rcases SearchState.relax_cases st u v step h with heq | ⟨hopen, -, heq⟩
  · rw [heq]
    exact hinv
  · rw [heq]
    have hnew : v ∉ st.closed := by
      rw [← hinv.contains_closed_iff hv]
      simp [hopen]
    refine ⟨?_, ?_, hinv.closed_nodup, ?_, ?_, ?_, hinv.iterations⟩
    · intro e he
      rcases OpenQueue.mem_insert.1 he with rfl | he
      · exact ⟨hv, .inr ⟨u, List.mem_cons_self ..⟩⟩
      · obtain ⟨hint, hfrom | ⟨p, hp⟩⟩ := hinv.queued e he
        · exact ⟨hint, .inl hfrom⟩
        · exact ⟨hint, .inr ⟨p, List.mem_cons_of_mem _ hp⟩⟩
    · intro w hw
      obtain ⟨hint, hgoal, hfrom | ⟨p, hp⟩⟩ := hinv.closed w hw
      · exact ⟨hint, hgoal, .inl hfrom⟩
      · exact ⟨hint, hgoal, .inr ⟨p, List.mem_cons_of_mem _ hp⟩⟩
    · intro e he
      rcases List.mem_cons.1 he with rfl | he
      · exact ⟨hv, hu⟩
      · exact hinv.parent_closed e he
    · -- the new predecessor is recorded for a vertex that is not closed
      intro e he xs ys hsplit
      rcases List.mem_cons.1 he with rfl | he
      · exact absurd (hsplit ▸ List.mem_append_right _ (List.mem_cons_self ..)) hnew
      · exact hinv.parent_before e he xs ys hsplit
    · intro e he
      rcases List.mem_cons.1 he with rfl | he
      · exact hstep
      · exact hinv.parent_step e he

end SearchInv

/-- Queuing entry vertices keeps the invariant. -/
theorem SearchInv.offerStarts (hstarts : ∀ v ∈ starts, v.IsInt) (start : Vec3) :
    ∀ (l : List VertexRef), (∀ v ∈ l, v ∈ starts) → ∀ {st : SearchState},
      SearchInv c m cfg goal starts exits st →
      SearchInv c m cfg goal starts exits (l.foldl (fun st v =>
        st.offer v none ((view c m cfg).length (placeOf (view c m cfg).find goal v - start))
          ((view c m cfg).length (goal - placeOf (view c m cfg).find goal v))) st)
  | [], _, _, hinv => hinv
  | v :: l, hl, st, hinv => by
    rw [List.foldl_cons]
    refine SearchInv.offerStarts hstarts start l (fun w hw => hl w (List.mem_cons_of_mem _ hw)) ?_
    rcases SearchState.offer_none_cases st v
      ((view c m cfg).length (placeOf (view c m cfg).find goal v - start))
      ((view c m cfg).length (goal - placeOf (view c m cfg).find goal v)) with heq | ⟨-, heq⟩
    · rw [heq]
      exact hinv
    · rw [heq]
      refine { hinv with queued := ?_ }
      intro e he
      rcases OpenQueue.mem_insert.1 he with rfl | he
      · have hv := hl v (List.mem_cons_self ..)
        exact ⟨hstarts v hv, .inl hv⟩
      · exact hinv.queued e he

variable (c m cfg goal exits) in
/-- A step of the search graph out of `u` to a vertex of integer ids: to the goal mark from an
exit vertex, or along a link to a real vertex from a vertex that is no exit. -/
def GraphStep (u v : VertexRef) : Prop :=
  v.IsInt ∧ ((v = VertexRef.goal ∧ u ∈ exits) ∨ (v ≠ VertexRef.goal ∧ Link c m cfg goal u v ∧ u ∉ exits))

/-- **The steps the search lists out of a vertex** are steps of the search graph: to the goal
mark from an exit vertex; along an edge or over a bridge to a real vertex from any other. -/
theorem steps_graphStep (hids : IntegerIds c m) (hfree : GoalMarkFree c)
    (hexits : ∀ v ∈ exits, v.IsInt) {u : VertexRef} (hu : u.IsInt)
    {L : List (VertexRef × Float × Float)} (h : (view c m cfg).steps goal exits u = .ok L) :
    ∀ s ∈ L, GraphStep c m cfg goal exits u s.1 := by
  rcases View.steps_cases h with ⟨hexit, rfl⟩ | ⟨hexit, s, vx, edges, hs, hvx, hedges, hrest⟩
  · -- an exit vertex leads to the goal mark only
    intro s hs
    rw [List.mem_singleton] at hs
    subst hs
    exact ⟨VertexRef.goal_isInt, .inl ⟨rfl, (VertexRef.contains_iff_mem hexits hu).1 hexit⟩⟩
  · have hnot : u ∉ exits := fun hm => by
      rw [(VertexRef.contains_iff_mem hexits hu).2 hm] at hexit
      cases hexit
    -- the steps along the vertex's edges
    have hE : ∀ x ∈ edges, GraphStep c m cfg goal exits u x.1 := by
      intro x hx
      obtain ⟨eid, heid, hx⟩ := exists_of_mapM_ok hedges x hx
      obtain ⟨e, nv, he, hnv, rfl⟩ := View.edgeStep_ok hx
      obtain ⟨hint, hgoal⟩ := edgeTarget_real hids hfree hu hs he vx.id
      exact ⟨hint, .inr ⟨hgoal, .edge hs hvx heid he hnv, hnot⟩⟩
    rcases hrest with ⟨hfew, bs, hbs, rfl⟩ | ⟨-, rfl⟩
    · -- the steps over bridges, for a vertex with few edges
      intro x hx
      rcases List.mem_append.1 hx with hx | hx
      · exact hE x hx
      · obtain ⟨b, hb, rfl⟩ := List.mem_map.1 hx
        have hbridge := isBridge_of_mem_bridges hbs b hb
        exact ⟨hbridge.listed.isInt hids, .inr ⟨hbridge.listed.ne_goal hfree,
          .bridge hs hvx hfew hbridge, hnot⟩⟩
    · exact hE

/-- **Leaving a closed vertex** by steps of the search graph keeps the invariant. -/
theorem SearchInv.relaxAll {u : VertexRef} :
    ∀ {L : List (VertexRef × Float × Float)} {st : SearchState},
      SearchInv c m cfg goal starts exits st → u ∈ st.closed →
      (∀ s ∈ L, GraphStep c m cfg goal exits u s.1) →
      SearchInv c m cfg goal starts exits (st.relaxAll u L)
  | [], _, hinv, _, _ => hinv
  | s :: L, st, hinv, hu, hL => by
    rw [SearchState.relaxAll_cons]
    obtain ⟨hint, hstep⟩ := hL s (List.mem_cons_self ..)
    exact SearchInv.relaxAll (hinv.relax hu hint hstep) (by simpa using hu)
      fun x hx => hL x (List.mem_cons_of_mem _ hx)

variable (c m cfg goal starts exits) in
/-- A path of the search graph from an entry vertex to `v`: it starts at an entry vertex, ends at
`v`, follows links, and passes no exit vertex before its end. -/
structure EntryPath (ws : List VertexRef) (v : VertexRef) : Prop where
  head : ∃ v0 ∈ ws.head?, v0 ∈ starts
  last : ws.getLast? = some v
  links : ws.IsChain (Link c m cfg goal)
  no_exit : ∀ w ∈ ws.dropLast, w ∉ exits

theorem EntryPath.single {v : VertexRef} (hv : v ∈ starts) :
    EntryPath c m cfg goal starts exits [v] v :=
  ⟨⟨v, rfl, hv⟩, rfl, List.isChain_singleton v, by simp⟩

/-- A path extends by a link out of its end, when that end is no exit vertex. -/
theorem EntryPath.snoc {ws : List VertexRef} {p v : VertexRef}
    (hw : EntryPath c m cfg goal starts exits ws p) (hlink : Link c m cfg goal p v)
    (hp : p ∉ exits) : EntryPath c m cfg goal starts exits (ws ++ [v]) v := by
  obtain ⟨init, hws⟩ := List.getLast?_eq_some_iff.1 hw.last
  refine ⟨?_, by simp, ?_, ?_⟩
  · obtain ⟨v0, hv0, hstart⟩ := hw.head
    exact ⟨v0, by rw [List.head?_append, hv0]; rfl, hstart⟩
  · refine hw.links.append (List.isChain_singleton v) ?_
    intro x hx y hy
    rw [hw.last] at hx
    cases hx
    cases hy
    exact hlink
  · intro w hwm
    rw [List.dropLast_concat, hws] at hwm
    rcases List.mem_append.1 hwm with hwm | hwm
    · exact hw.no_exit w (by rw [hws, List.dropLast_concat]; exact hwm)
    · rw [List.mem_singleton] at hwm
      exact hwm ▸ hp

/-- **The path read back to a closed vertex** is a path of the search graph from an entry vertex,
through vertices closed before it: at most as many steps back as vertices closed before it. -/
theorem SearchInv.pathTo_entryPath {st : SearchState}
    (hinv : SearchInv c m cfg goal starts exits st) :
    ∀ (fuel : Nat) (xs : List VertexRef) (v : VertexRef) (ys : List VertexRef),
      st.closed = xs ++ v :: ys → ys.length ≤ fuel →
      EntryPath c m cfg goal starts exits (st.pathTo v fuel) v ∧
        (st.pathTo v fuel).Sublist (v :: ys).reverse := by
  intro fuel
  -- induction on the steps left: the predecessor of `v` was closed before it
  induction fuel with
  | zero =>
    intro xs v ys hsplit hlen
    have hys : ys = [] := List.eq_nil_of_length_eq_zero (by omega)
    subst hys
    -- `v` was closed first, so it has no predecessor and is an entry vertex
    have hv : v ∈ st.closed := hsplit ▸ List.mem_append_right _ (List.mem_cons_self ..)
    obtain ⟨-, -, hfrom⟩ := hinv.closed v hv
    have hstart : v ∈ starts := by
      rcases hfrom with h | ⟨p, hp⟩
      · exact h
      · exact absurd (hinv.parent_before _ hp xs [] hsplit) List.not_mem_nil
    exact ⟨EntryPath.single hstart, by simp [SearchState.pathTo]⟩
  | succ fuel ih =>
    intro xs v ys hsplit hlen
    have hv : v ∈ st.closed := hsplit ▸ List.mem_append_right _ (List.mem_cons_self ..)
    obtain ⟨hvint, hvgoal, hfrom⟩ := hinv.closed v hv
    cases hlook : VertexRef.lookup st.parent v with
    | none =>
      -- no predecessor found: `v` is an entry vertex
      have hstart : v ∈ starts := by
        rcases hfrom with h | ⟨p, hp⟩
        · exact h
        · have hne := VertexRef.lookup_eq_none.1 hlook _ hp
          rw [(VertexRef.beq_iff_eq hvint hvint).2 rfl] at hne
          cases hne
      simp only [SearchState.pathTo, hlook]
      exact ⟨EntryPath.single hstart, by simp⟩
    | some p =>
      obtain ⟨k, hk, hkv⟩ := VertexRef.exists_of_lookup_eq_some hlook
      have hkeq : k = v := (VertexRef.beq_iff_eq (hinv.parent_closed _ hk).1 hvint).1 hkv
      subst hkeq
      have hp : p ∈ ys := hinv.parent_before _ hk xs ys hsplit
      obtain ⟨ys1, ys2, rfl⟩ := List.append_of_mem hp
      obtain ⟨hpath, hsub⟩ := ih (xs ++ k :: ys1) p ys2 (by simp [hsplit])
        (by simp only [List.length_append, List.length_cons] at hlen; omega)
      have hlink : Link c m cfg goal p k ∧ p ∉ exits := by
        rcases hinv.parent_step _ hk with ⟨hg, -⟩ | ⟨-, hl, hx⟩
        · exact absurd hg hvgoal
        · exact ⟨hl, hx⟩
      simp only [SearchState.pathTo, hlook]
      refine ⟨hpath.snoc hlink.1 hlink.2, ?_⟩
      have htarget : (k :: (ys1 ++ p :: ys2)).reverse =
          ((p :: ys2).reverse ++ ys1.reverse) ++ [k] := by simp
      rw [htarget]
      exact (hsub.trans (List.sublist_append_left _ _)).append (List.Sublist.refl _)

/-- **Closing the goal mark.** When the goal mark is queued first and not yet closed, the path
read back to it is a path of the search graph from an entry vertex to an exit vertex, then the
goal mark, with no vertex twice. -/
theorem SearchInv.goalPath {st : SearchState} (hinv : SearchInv c m cfg goal starts exits st)
    (hstarts : ∀ v ∈ starts, v ≠ VertexRef.goal) {f : Float} {t : Nat} {rest : OpenQueue}
    (hq : st.queue = (f, t, VertexRef.goal) :: rest) :
    ∃ vs vm, st.pathTo VertexRef.goal (st.iterations + 1) = vs ++ [VertexRef.goal] ∧
      EntryPath c m cfg goal starts exits vs vm ∧ vm ∈ exits ∧
      (vs ++ [VertexRef.goal]).Nodup := by
  obtain ⟨-, hfrom⟩ := hinv.queued _ (hq ▸ List.mem_cons_self ..)
  have hgoal : (VertexRef.goal == VertexRef.goal) = true :=
    (VertexRef.beq_iff_eq VertexRef.goal_isInt VertexRef.goal_isInt).2 rfl
  -- the goal mark is queued only from an exit vertex, which is recorded as its predecessor
  cases hlook : VertexRef.lookup st.parent VertexRef.goal with
  | none =>
    rcases hfrom with h | ⟨p, hp⟩
    · exact absurd rfl (hstarts _ h)
    · have hne := VertexRef.lookup_eq_none.1 hlook _ hp
      rw [hgoal] at hne
      cases hne
  | some p =>
    obtain ⟨k, hk, hkg⟩ := VertexRef.exists_of_lookup_eq_some hlook
    have hkeq : k = VertexRef.goal :=
      (VertexRef.beq_iff_eq (hinv.parent_closed _ hk).1 VertexRef.goal_isInt).1 hkg
    subst hkeq
    have hexit : p ∈ exits := by
      rcases hinv.parent_step _ hk with ⟨-, hx⟩ | ⟨hne, -⟩
      · exact hx
      · exact absurd rfl hne
    obtain ⟨xs, ys, hsplit⟩ := List.append_of_mem (hinv.parent_closed _ hk).2
    have hlen : ys.length ≤ st.iterations := by
      rw [hinv.iterations, hsplit, List.length_append, List.length_cons]
      omega
    obtain ⟨hpath, hsub⟩ := hinv.pathTo_entryPath st.iterations xs p ys hsplit hlen
    refine ⟨st.pathTo p st.iterations, p, by simp [SearchState.pathTo, hlook], hpath, hexit, ?_⟩
    -- the path runs through distinct closed vertices, none of them the goal mark
    have hnodup : (p :: ys).Nodup :=
      (hsplit ▸ hinv.closed_nodup).sublist (List.sublist_append_right _ _)
    have hclosed : ∀ w ∈ st.pathTo p st.iterations, w ∈ st.closed := by
      intro w hw
      have hw' : w ∈ p :: ys := List.mem_reverse.1 (hsub.subset hw)
      rw [hsplit]
      exact List.mem_append_right _ hw'
    rw [List.nodup_append]
    refine ⟨(List.nodup_reverse.2 hnodup).sublist hsub, List.nodup_singleton _, ?_⟩
    intro a ha b hb
    rw [List.mem_singleton] at hb
    subst hb
    exact (hinv.closed a (hclosed a ha)).2.1

variable (c m cfg goal starts exits) in
/-- A successful answer of a search: its vertex path is a path of the search graph from an entry
vertex to an exit vertex (`EntryPath`) followed by the goal mark, with no vertex twice; each
waypoint is the position of its vertex with heading zero; and the search closed the goal mark
while under its iteration limit. -/
structure FoundPath (r : PlanResult) : Prop where
  path : ∃ vs vm, r.vertexPath = vs ++ [VertexRef.goal] ∧
    EntryPath c m cfg goal starts exits vs vm ∧ vm ∈ exits ∧ (vs ++ [VertexRef.goal]).Nodup
  waypoints : r.waypoints = r.vertexPath.map fun v => Pose.ofPosition (vertexPosition c goal v)
  iterations : ∃ k : Nat, r.iterations = .int (k + 1) ∧ cfg.maxIterations.atMost (.int k) = .ok false

/-- **The rounds of the search**, from a state with the invariant, close the goal mark only
after a path of the search graph, read back through the predecessors, and under the iteration
limit. -/
theorem run_found (hids : IntegerIds c m) (hfree : GoalMarkFree c)
    (hstarts : ∀ v ∈ starts, v ≠ VertexRef.goal) (hexits : ∀ v ∈ exits, v.IsInt) :
    ∀ (fuel : Nat) (st st' : SearchState) (u : VertexRef),
      SearchInv c m cfg goal starts exits st →
      st.run (fun n => cfg.maxIterations.atMost (.int n)) ((view c m cfg).steps goal exits) fuel =
        .ok (.found st' u) →
      (∃ vs vm, st'.pathTo u st'.iterations = vs ++ [VertexRef.goal] ∧
        EntryPath c m cfg goal starts exits vs vm ∧ vm ∈ exits ∧ (vs ++ [VertexRef.goal]).Nodup) ∧
      ∃ k : Nat, st'.iterations = k + 1 ∧ cfg.maxIterations.atMost (.int k) = .ok false
  | 0, st, st', u, _, h => by
    rw [SearchState.run] at h
    cases h
  | fuel + 1, st, st', u, hinv, h => by
    rw [SearchState.run] at h
    split at h
    · cases h
    · rename_i f t w rest hq
      split at h
      · cases h
      · cases h
      · rename_i hmax
        split at h
        · -- a vertex closed before: dropped
          exact run_found hids hfree hstarts hexits fuel _ st' u (hinv.pop hq) h
        · rename_i hopen
          have hwint := (hinv.queued _ (hq ▸ List.mem_cons_self ..)).1
          split at h
          · -- the goal mark is closed: the path is read back
            rename_i hw
            have hweq : w = VertexRef.goal :=
              (VertexRef.beq_iff_eq hwint VertexRef.goal_isInt).1 hw
            subst hweq
            cases h
            obtain ⟨vs, vm, hpath, hentry, hexit, hnodup⟩ := hinv.goalPath hstarts hq
            -- the state that closed the goal mark has the same predecessors
            exact ⟨⟨vs, vm, (SearchState.pathTo_congr (by rfl) _ _).trans hpath, hentry, hexit,
              hnodup⟩, ⟨st.iterations, rfl, hmax⟩⟩
          · -- any other vertex is left by its steps
            rename_i hw
            have hne : w ≠ VertexRef.goal :=
              fun heq => hw ((VertexRef.beq_iff_eq hwint VertexRef.goal_isInt).2 heq)
            have hclose := hinv.close hq (Bool.eq_false_iff.2 hopen) hne
            obtain ⟨L, hL, h⟩ := bind_eq_ok.1 h
            exact run_found hids hfree hstarts hexits fuel _ st' u
              (hclose.relaxAll (List.mem_cons_self ..) (steps_graphStep hids hfree hexits hwint hL)) h

/-- **The rounds of the search**, from a state with the invariant, answer a found path whenever
they answer success. -/
theorem rounds_foundPath (hids : IntegerIds c m) (hfree : GoalMarkFree c)
    (hstarts : ∀ v ∈ starts, v ≠ VertexRef.goal) (hexits : ∀ v ∈ exits, v.IsInt)
    {fuel : Nat} {st : SearchState} {r : PlanResult} (hinv : SearchInv c m cfg goal starts exits st)
    (h : rounds c m cfg goal exits fuel st = .ok r) (hs : r.success = true) :
    FoundPath c m cfg goal starts exits r := by
  unfold rounds at h
  obtain ⟨e, he, h⟩ := bind_eq_ok.1 h
  cases e with
  | found st' u =>
    obtain ⟨⟨vs, vm, hpath, hentry, hexit, hnodup⟩, k, hk, hmax⟩ :=
      run_found hids hfree hstarts hexits fuel st st' u hinv he
    cases h
    exact ⟨⟨vs, vm, hpath, hentry, hexit, hnodup⟩, rfl, ⟨k, by rw [hk]; rfl, hmax⟩⟩
  | limit st' =>
    cases h
    cases hs
  | exhausted st' =>
    cases h
    cases hs

/-- Under an integer iteration limit, a found path took at most that many iterations. -/
theorem FoundPath.iterations_le {r : PlanResult} (hr : FoundPath c m cfg goal starts exits r)
    {M : Int} (hM : cfg.maxIterations = .int M) : ∃ n : Int, r.iterations = .int n ∧ n ≤ M := by
  obtain ⟨k, hk, hmax⟩ := hr.iterations
  rw [hM, Value.atMost_int, Except.ok.injEq, decide_eq_false_iff_not] at hmax
  exact ⟨k + 1, by rw [hk], by omega⟩

/-- A found path has at least an entry vertex and the goal mark. -/
theorem FoundPath.two_le_length {r : PlanResult} (hr : FoundPath c m cfg goal starts exits r) :
    2 ≤ r.vertexPath.length := by
  obtain ⟨vs, vm, hpath, hentry, -, -⟩ := hr.path
  obtain ⟨v0, hv0, -⟩ := hentry.head
  have hne : vs ≠ [] := by
    rintro rfl
    cases hv0
  have hpos := List.length_pos_of_ne_nil hne
  rw [hpath, List.length_append, List.length_singleton]
  omega

end Search

variable {c : SubmapCollection} {m : VoxelMap} {cfg : SearchSettings} {goal : Vec3}

/-- **A path found by the search is a path of the search graph.** When the search succeeds, its
vertex path is `v₀, …, vₘ` and then the goal mark, where `v₀` is an entry vertex, `vₘ` an exit
vertex and no earlier one, each step a link (an edge of a submap's graph, or a bridge from a
vertex with few edges to a vertex of another submap listed at its position, within the linking
distance, over a traversable segment), and no vertex comes twice; its waypoints are the positions
of its vertices with heading zero; and it stopped within the iteration limit. This holds when the
ids are integers and no vertex of the collection is the goal mark. -/
theorem search_success_path {robot : Option Vec3} {start : Vec3} {r : PlanResult}
    {starts exits : List VertexRef} (hids : IntegerIds c m) (hfree : GoalMarkFree c)
    (hstarts : reachableVertices c m start cfg.startCount (m.segmentActive robot) = .ok starts)
    (hexits : reachableVertices c m goal cfg.goalCount m.segmentGlobal = .ok exits)
    (h : search c m robot cfg start goal = .ok r) (hsuccess : r.success = true) :
    FoundPath c m cfg goal starts exits r ∧
      ∀ M : Int, cfg.maxIterations = .int M → ∃ n : Int, r.iterations = .int n ∧ n ≤ M := by
  have hstartsReal : ∀ v ∈ starts, v.IsInt ∧ v ≠ VertexRef.goal := fun v hv =>
    have hl := listedAt_of_reachableVertices hstarts v hv
    ⟨hl.isInt hids, hl.ne_goal hfree⟩
  have hexitsInt : ∀ v ∈ exits, v.IsInt := fun v hv =>
    (listedAt_of_reachableVertices hexits v hv).isInt hids
  unfold search at h
  rw [hstarts] at h
  obtain ⟨starts', hs', h⟩ := bind_eq_ok.1 h
  cases hs'
  split at h
  · rw [pure_eq_ok] at h
    subst h
    cases hsuccess
  · rw [hexits] at h
    obtain ⟨exits', he', h⟩ := bind_eq_ok.1 h
    cases he'
    split at h
    · rw [pure_eq_ok] at h
      subst h
      cases hsuccess
    · -- the search proper starts from the entry vertices queued at their distances
      have hinv : SearchInv c m cfg goal starts exits ((view c m cfg).entries goal start starts) :=
        SearchInv.offerStarts (fun v hv => (hstartsReal v hv).1) start starts (fun v hv => hv)
          searchInv_empty
      have hfound := rounds_foundPath hids hfree (fun v hv => (hstartsReal v hv).2) hexitsInt
        hinv h hsuccess
      exact ⟨hfound, fun M hM => hfound.iterations_le hM⟩

/-- A submap of id `sid` whose graph joins vertex `a` at `(¼, ½, ½)` to vertex `b` at
`(¾, ½, ½)` by one edge, posed at the identity. -/
def pairCollection (sid a b : Int) : SubmapCollection :=
  let g : SkeletonGraph :=
    { vertices := [⟨.int a, ⟨0.25, 0.5, 0.5⟩, [0]⟩, ⟨.int b, ⟨0.75, 0.5, 0.5⟩, [0]⟩],
      edges := [⟨0, .int a, .int b⟩], nextVertex := .int (max a b + 1), nextEdge := 1 }
  { submaps := [{ id := .int sid, graph := g, pose := Transform.identity,
                  poseInverse := Transform.identity.inverse, vertexIds := [.int a, .int b],
                  localPoints := [⟨0.25, 0.5, 0.5⟩, ⟨0.75, 0.5, 0.5⟩],
                  worldPoints := Transform.identity.applyAll
                    [⟨0.25, 0.5, 0.5⟩, ⟨0.75, 0.5, 0.5⟩] }] }

/-- A map of one free unit cell, frozen as the region of id `sid`. -/
def pairMap (sid : Int) : VoxelMap :=
  { frame := ⟨⟨0, 0, 0⟩, 1.0, 1, 1, 1⟩, cells := ⟨#[1]⟩, field := some ⟨#[10.0]⟩,
    regions := [{ id := .int sid, lower := ⟨0, 0, 0⟩, upper := ⟨1, 1, 1⟩, start := (0, 0, 0),
                  stop := (1, 1, 1), observed := #[true], distance := ⟨#[10.0]⟩ }],
    traversability := 0.0, clearing := .num 0.0 }

theorem pair_integerIds (sid a b : Int) : IntegerIds (pairCollection sid a b) (pairMap sid) where
  regions := by simp [pairMap]
  vertexIds := by simp [pairCollection]
  edgeEnds := by simp [pairCollection]

theorem pair_goalMarkFree {sid a b : Int} (h : sid ≠ -1) :
    GoalMarkFree (pairCollection sid a b) := by
  simp [GoalMarkFree, pairCollection, h]

/-- From vertex `0` of the pair to vertex `1`, one entry and one exit vertex each: the search
succeeds, within the default limit. -/
theorem search_success_path_on_pair :
    IntegerIds (pairCollection 0 0 1) (pairMap 0) ∧ GoalMarkFree (pairCollection 0 0 1) ∧
    ∃ starts exits r,
      reachableVertices (pairCollection 0 0 1) (pairMap 0) ⟨0.25, 0.5, 0.5⟩ (.int 1)
          ((pairMap 0).segmentActive none) = .ok starts ∧
        reachableVertices (pairCollection 0 0 1) (pairMap 0) ⟨0.75, 0.5, 0.5⟩ (.int 1)
          (pairMap 0).segmentGlobal = .ok exits ∧
        search (pairCollection 0 0 1) (pairMap 0) none { startCount := .int 1, goalCount := .int 1 }
          ⟨0.25, 0.5, 0.5⟩ ⟨0.75, 0.5, 0.5⟩ = .ok r ∧ r.success = true ∧
        FoundPath (pairCollection 0 0 1) (pairMap 0) { startCount := .int 1, goalCount := .int 1 }
          ⟨0.75, 0.5, 0.5⟩ starts exits r ∧
        ∃ n : Int, r.iterations = .int n ∧ n ≤ 5000 := by
  have hids := pair_integerIds 0 0 1
  have hfree : GoalMarkFree (pairCollection 0 0 1) := pair_goalMarkFree (by decide)
  obtain ⟨starts, hs, -⟩ := exists_ok_of_toOption_map (f := fun _ => ())
    (x := reachableVertices (pairCollection 0 0 1) (pairMap 0) ⟨0.25, 0.5, 0.5⟩ (.int 1)
      ((pairMap 0).segmentActive none)) (b := ()) (by decide +kernel)
  obtain ⟨exits, he, -⟩ := exists_ok_of_toOption_map (f := fun _ => ())
    (x := reachableVertices (pairCollection 0 0 1) (pairMap 0) ⟨0.75, 0.5, 0.5⟩ (.int 1)
      (pairMap 0).segmentGlobal) (b := ()) (by decide +kernel)
  obtain ⟨r, hr, hsuccess⟩ := exists_ok_of_toOption_map (f := PlanResult.success)
    (x := search (pairCollection 0 0 1) (pairMap 0) none
      { startCount := .int 1, goalCount := .int 1 } ⟨0.25, 0.5, 0.5⟩ ⟨0.75, 0.5, 0.5⟩)
    (b := true) (by decide +kernel)
  -- the settings are named first, so that the counts are not unified by running the search
  obtain ⟨hfound, hbound⟩ : FoundPath (pairCollection 0 0 1) (pairMap 0)
      { startCount := .int 1, goalCount := .int 1 } ⟨0.75, 0.5, 0.5⟩ starts exits r ∧ _ :=
    search_success_path hids hfree hs he hr hsuccess
  exact ⟨hids, hfree, starts, exits, r, hs, he, hr, hsuccess, hfound, hbound 5000 rfl⟩

/-- **Without its two assumptions the found path can fail.** A vertex `(-1, -1)` is taken for the
goal mark: closed first as the only entry vertex, it ends the search with a vertex path of that
one vertex, which is no path from an entry vertex to the goal mark. And a limit of `2.5`
iterations is passed: the search closes the goal mark at its third iteration, since it stops
only when the count reached is at least the limit. -/
theorem found_path_needs_goal_mark_free_and_integer_limit :
    (∃ r, search (pairCollection (-1) (-1) 0) (pairMap (-1)) none
        { startCount := .int 1, goalCount := .int 1 } ⟨0.25, 0.5, 0.5⟩ ⟨0.75, 0.5, 0.5⟩ = .ok r ∧
      r.success = true ∧ r.vertexPath.length = 1 ∧ r.vertexPath.all (· == VertexRef.goal) ∧
      ∀ starts exits, ¬ FoundPath (pairCollection (-1) (-1) 0) (pairMap (-1))
        { startCount := .int 1, goalCount := .int 1 } ⟨0.75, 0.5, 0.5⟩ starts exits r) ∧
    ∃ r, search (pairCollection 0 0 1) (pairMap 0) none
        { startCount := .int 1, goalCount := .int 1, maxIterations := .num 2.5 }
        ⟨0.25, 0.5, 0.5⟩ ⟨0.75, 0.5, 0.5⟩ = .ok r ∧
      r.success = true ∧ r.iterations.atMost (.num 2.5) = .ok false := by
  constructor
  · obtain ⟨r, hr, hfacts⟩ := exists_ok_of_toOption_map
      (f := fun r : PlanResult => (r.success, r.vertexPath.length, r.vertexPath.all (· == VertexRef.goal)))
      (x := search (pairCollection (-1) (-1) 0) (pairMap (-1)) none
        { startCount := .int 1, goalCount := .int 1 } ⟨0.25, 0.5, 0.5⟩ ⟨0.75, 0.5, 0.5⟩)
      (b := (true, 1, true)) (by decide +kernel)
    simp only [Prod.mk.injEq] at hfacts
    obtain ⟨hsuccess, hlength, hgoal⟩ := hfacts
    refine ⟨r, hr, hsuccess, hlength, hgoal, fun starts exits hfound => ?_⟩
    have h2 := hfound.two_le_length
    omega
  · obtain ⟨r, hr, hfacts⟩ := exists_ok_of_toOption_map
      (f := fun r : PlanResult => (r.success, (r.iterations.atMost (.num 2.5)).toOption))
      (x := search (pairCollection 0 0 1) (pairMap 0) none
        { startCount := .int 1, goalCount := .int 1, maxIterations := .num 2.5 }
        ⟨0.25, 0.5, 0.5⟩ ⟨0.75, 0.5, 0.5⟩)
      (b := (true, some false)) (by decide +kernel)
    simp only [Prod.mk.injEq] at hfacts
    exact ⟨r, hr, hfacts.1, eq_ok_of_toOption hfacts.2⟩

end Federation

end Exploration
