import Mathlib
import Exploration.Proofs.Ids

/-!
# Skeleton graphs built by calls with integer ids

The callers of a skeleton graph give its vertex ids as integers, or leave them out, and name
the ends of an edge by integer ids. A graph that such calls build from an empty one, whatever
they answer, keeps one invariant (`SkeletonGraph.Sound`): the vertex ids are distinct integers
below the next free id, an integer too; the edge ids are distinct and below the next edge id;
every edge joins two distinct vertices of the graph, each of which lists it once; and every edge
a vertex lists has the vertex as an end. Each call keeps it (`Call.apply_sound`), so every built
graph has it (`build_sound`), and from it follow what the graph's readers rely on
(`build_incidence`): a vertex added without an id is never refused, the edges a vertex lists
are found by their ids and lead to the other end, and a call that fails changes nothing.

The integer ids are needed: a text id is taken into the graph before the next free id is moved
past it, which fails, so that call fails after it changed the graph
(`text_id_failure_keeps_vertex`).
-/

namespace Exploration

namespace SkeletonGraph

theorem hasVertex?_key {g : SkeletonGraph} {id : Value} (h : id.isKey = true) :
    g.hasVertex? id = .ok (g.hasVertex id) := by
  simp [hasVertex?, Value.toKey, h, bind, Except.bind]

theorem hasVertex_of_hasVertex? {g : SkeletonGraph} {id : Value} {found : Bool}
    (h : g.hasVertex? id = .ok found) : g.hasVertex id = found := by
  unfold hasVertex? Value.toKey at h
  split at h
  · exact Except.ok.inj h
  · cases h

/-- In a graph of integer vertex ids, an integer is a vertex's id exactly when it is listed. -/
theorem hasVertex_int_iff {g : SkeletonGraph} (hids : ∀ v ∈ g.vertices, ∃ k : Int, v.id = .int k)
    (k : Int) : g.hasVertex (.int k) = true ↔ Value.int k ∈ g.vertexIds := by
  unfold hasVertex vertexIds
  rw [List.any_eq_true, List.mem_map]
  constructor
  · rintro ⟨v, hv, hsame⟩
    obtain ⟨j, hj⟩ := hids v hv
    exact ⟨v, hv, (Value.same_int_iff hj k).1 hsame⟩
  · rintro ⟨v, hv, hid⟩
    exact ⟨v, hv, (Value.same_int_iff hid k).2 hid⟩

/-- An integer id, explicit or the next free one: refused when taken, else stored, with the next
free id moved past it. -/
theorem addVertex_int (g : SkeletonGraph) (p : Vec3) {n : Int} (k : Int)
    (hn : g.nextVertex = .int n) :
    g.addVertex p (some (.int k)) =
      if g.hasVertex (.int k) then (g, .error (.duplicateVertex (Value.int k).describe))
      else
        ({ g with vertices := g.vertices ++ [{ id := .int k, point := p }],
                  nextVertex := .int (max n (k + 1)) }, .ok (.int k)) := by
  dsimp only [addVertex, Option.getD_some]
  rw [hasVertex?_key rfl]
  cases g.hasVertex (.int k) with
  | true => rfl
  | false => simp [Value.succ, hn, bind, Except.bind, Value.larger_int]

/-- Without an explicit id a vertex takes the next free one. -/
theorem addVertex_none (g : SkeletonGraph) (p : Vec3) :
    g.addVertex p = g.addVertex p (some g.nextVertex) := rfl

/-- An integer id given or not: the id the vertex is stored under. -/
theorem addVertex_map_int {g : SkeletonGraph} {n : Int} (hn : g.nextVertex = .int n) (p : Vec3)
    (id? : Option Int) :
    g.addVertex p (id?.map .int) = g.addVertex p (some (.int (id?.getD n))) := by
  cases id? with
  | none => rw [Option.map_none, addVertex_none, hn, Option.getD_none]
  | some k => rfl

/-- A vertex with the edge added to its list when it is an end of the edge. -/
def attach (a b : Value) (id : Nat) (v : SkeletonVertex) : SkeletonVertex :=
  if v.id.same a || v.id.same b then { v with edges := v.edges ++ [id] } else v

@[simp] theorem attach_id (a b : Value) (id : Nat) (v : SkeletonVertex) :
    (attach a b id v).id = v.id := by
  unfold attach
  split <;> rfl

theorem attach_edges (a b : Value) (id : Nat) (v : SkeletonVertex) :
    (attach a b id v).edges = if v.id.same a || v.id.same b then v.edges ++ [id] else v.edges := by
  unfold attach
  split <;> rfl

/-- An edge that is added joins two vertices that are there and not equal, takes the next edge
id, and is listed at each vertex equal to one of its ends. -/
theorem addEdge_ok {g g' : SkeletonGraph} {a b : Value} {id : Nat}
    (h : g.addEdge a b = .ok (g', id)) :
    g.hasVertex a = true ∧ g.hasVertex b = true ∧ a.same b = false ∧ id = g.nextEdge ∧
      g' = { g with edges := g.edges ++ [⟨g.nextEdge, a, b⟩],
                    vertices := g.vertices.map (attach a b g.nextEdge),
                    nextEdge := g.nextEdge + 1 } := by
  unfold addEdge at h
  cases hha : g.hasVertex? a with
  | error e => simp [hha, bind, Except.bind] at h
  | ok ha =>
    cases hhb : g.hasVertex? b with
    | error e => cases ha <;> simp [hha, hhb, bind, Except.bind, throw, throwThe, MonadExceptOf.throw] at h
    | ok hb =>
      cases ha <;> cases hb <;> simp [hha, hhb, bind, Except.bind, throw, throwThe, MonadExceptOf.throw] at h
      by_cases hs : a.same b = true
      · simp [hs] at h
      · simp only [hs, if_false, Bool.false_eq_true, Except.ok.injEq, Prod.mk.injEq] at h
        obtain ⟨rfl, rfl⟩ := h
        refine ⟨hasVertex_of_hasVertex? hha, hasVertex_of_hasVertex? hhb, by simpa using hs, rfl, ?_⟩
        simp [attach]

/-- A call on a skeleton graph, its ids integers as the graph's callers give them. -/
inductive Call where
  | addVertex (p : Vec3) (id? : Option Int)
  | addEdge (a b : Int)

/-- A call on a graph: the graph after it and the id it answers, or its failure. A refused edge
leaves the graph as it was. -/
def Call.apply : Call → SkeletonGraph → SkeletonGraph × Except Error Value
  | .addVertex p id?, g => g.addVertex p (id?.map .int)
  | .addEdge a b, g =>
    match g.addEdge (.int a) (.int b) with
    | .ok (g', id) => (g', .ok (.int id))
    | .error e => (g, .error e)

theorem Call.apply_addEdge_of_error {g : SkeletonGraph} {a b : Int} {e : Error}
    (h : g.addEdge (.int a) (.int b) = .error e) : (Call.addEdge a b).apply g = (g, .error e) := by
  simp [Call.apply, h]

theorem Call.apply_addEdge_of_ok {g g' : SkeletonGraph} {a b : Int} {id : Nat}
    (h : g.addEdge (.int a) (.int b) = .ok (g', id)) :
    (Call.addEdge a b).apply g = (g', .ok (.int id)) := by
  simp [Call.apply, h]

/-- The graph that calls build from an empty one, each on the graph the call before left, failed
or not. -/
def build (calls : List Call) : SkeletonGraph := calls.foldl (fun g c => (c.apply g).1) {}

/-- What a graph built by calls with integer ids keeps. -/
structure Sound (g : SkeletonGraph) : Prop where
  /-- The vertex ids are integers, all below the next free id, an integer too. -/
  below_next : ∃ n : Int, g.nextVertex = .int n ∧ ∀ v ∈ g.vertices, ∃ k : Int, v.id = .int k ∧ k < n
  vertexIds_nodup : g.vertexIds.Nodup
  edgeIds_nodup : (g.edges.map (·.id)).Nodup
  edge_lt_next : ∀ e ∈ g.edges, e.id < g.nextEdge
  /-- An edge joins two vertices of the graph, and not a vertex to itself. -/
  ends : ∀ e ∈ g.edges, e.start ≠ e.stop ∧ e.start ∈ g.vertexIds ∧ e.stop ∈ g.vertexIds
  /-- Each end of an edge lists it once. -/
  listed_once : ∀ e ∈ g.edges, ∀ v ∈ g.vertices, v.id = e.start ∨ v.id = e.stop →
    v.edges.count e.id = 1
  /-- A vertex lists only edges it is an end of. -/
  incident : ∀ v ∈ g.vertices, ∀ i ∈ v.edges,
    ∃ e ∈ g.edges, e.id = i ∧ (e.start = v.id ∨ e.stop = v.id)

theorem sound_empty : ({} : SkeletonGraph).Sound where
  below_next := ⟨0, rfl, nofun⟩
  vertexIds_nodup := List.nodup_nil
  edgeIds_nodup := List.nodup_nil
  edge_lt_next := nofun
  ends := nofun
  listed_once := nofun
  incident := nofun

namespace Sound

variable {g : SkeletonGraph}

theorem ids_int (hs : g.Sound) : ∀ v ∈ g.vertices, ∃ k : Int, v.id = .int k := by
  obtain ⟨n, -, hbelow⟩ := hs.below_next
  intro v hv
  obtain ⟨k, hk, -⟩ := hbelow v hv
  exact ⟨k, hk⟩

theorem int_of_mem_vertexIds (hs : g.Sound) {x : Value} (hx : x ∈ g.vertexIds) :
    ∃ k : Int, x = .int k := by
  obtain ⟨v, hv, rfl⟩ := List.mem_map.1 hx
  exact hs.ids_int v hv

/-- The next edge id is listed at no vertex. -/
theorem next_not_mem_edges (hs : g.Sound) {v : SkeletonVertex} (hv : v ∈ g.vertices) :
    g.nextEdge ∉ v.edges := by
  intro hmem
  obtain ⟨e, he, hid, -⟩ := hs.incident v hv _ hmem
  exact absurd (hid ▸ hs.edge_lt_next e he) (lt_irrefl _)

/-- Storing a vertex under an integer id not yet taken, with the next free id moved past it. -/
theorem addVertex (hs : g.Sound) (p : Vec3) {n k : Int} (hn : g.nextVertex = .int n)
    (hk : Value.int k ∉ g.vertexIds) :
    Sound { g with vertices := g.vertices ++ [{ id := .int k, point := p }],
                   nextVertex := .int (max n (k + 1)) } where
  below_next := by
    obtain ⟨n', hn', hbelow⟩ := hs.below_next
    obtain rfl : n' = n := Value.int.inj (hn'.symm.trans hn)
    refine ⟨max n' (k + 1), rfl, fun v hv => ?_⟩
    rcases List.mem_append.1 hv with hv | hv
    · obtain ⟨j, hj, hlt⟩ := hbelow v hv
      exact ⟨j, hj, lt_max_of_lt_left hlt⟩
    · rw [List.mem_singleton.1 hv]
      exact ⟨k, rfl, lt_max_of_lt_right (lt_add_one k)⟩
  vertexIds_nodup := by
    have hfresh : ∀ v ∈ g.vertices, v.id ≠ .int k := fun v hv h => hk (List.mem_map.2 ⟨v, hv, h⟩)
    simpa [vertexIds, List.nodup_append] using ⟨hs.vertexIds_nodup, hfresh⟩
  edgeIds_nodup := hs.edgeIds_nodup
  edge_lt_next := hs.edge_lt_next
  ends e he := by
    obtain ⟨hne, hstart, hstop⟩ := hs.ends e he
    exact ⟨hne, by simp [vertexIds] at hstart ⊢; exact .inl hstart,
      by simp [vertexIds] at hstop ⊢; exact .inl hstop⟩
  listed_once e he v hv hend := by
    rcases List.mem_append.1 hv with hv | hv
    · exact hs.listed_once e he v hv hend
    · -- the new vertex is no end of an edge already there
      obtain rfl := List.mem_singleton.1 hv
      obtain ⟨-, hstart, hstop⟩ := hs.ends e he
      rcases hend with h | h <;> simp_all
  incident v hv i hi := by
    rcases List.mem_append.1 hv with hv | hv
    · exact hs.incident v hv i hi
    · obtain rfl := List.mem_singleton.1 hv
      cases hi

/-- Adding an edge between two listed integer ids that differ. -/
theorem addEdge (hs : g.Sound) {a b : Int} (ha : Value.int a ∈ g.vertexIds)
    (hb : Value.int b ∈ g.vertexIds) (hab : a ≠ b) :
    Sound { g with edges := g.edges ++ [⟨g.nextEdge, .int a, .int b⟩],
                   vertices := g.vertices.map (attach (.int a) (.int b) g.nextEdge),
                   nextEdge := g.nextEdge + 1 } where
  below_next := by
    obtain ⟨n, hn, hbelow⟩ := hs.below_next
    refine ⟨n, hn, fun v' hv' => ?_⟩
    obtain ⟨v, hv, rfl⟩ := List.mem_map.1 hv'
    simpa using hbelow v hv
  vertexIds_nodup := by
    simpa [vertexIds, Function.comp_def] using hs.vertexIds_nodup
  edgeIds_nodup := by
    have hfresh : ∀ e ∈ g.edges, e.id ≠ g.nextEdge := fun e he => (hs.edge_lt_next e he).ne
    simpa [List.nodup_append] using ⟨hs.edgeIds_nodup, hfresh⟩
  edge_lt_next e he := by
    rcases List.mem_append.1 he with he | he
    · exact Nat.lt_succ_of_lt (hs.edge_lt_next e he)
    · rw [List.mem_singleton.1 he]
      exact Nat.lt_succ_self _
  ends e he := by
    have hids : (g.vertices.map (attach (.int a) (.int b) g.nextEdge)).map (·.id) = g.vertexIds := by
      simp [vertexIds, Function.comp_def]
    simp only [vertexIds] at hids ha hb ⊢
    rw [hids]
    rcases List.mem_append.1 he with he | he
    · exact hs.ends e he
    · obtain rfl := List.mem_singleton.1 he
      exact ⟨fun h => hab (Value.int.inj h), ha, hb⟩
  listed_once e he v' hv' hend := by
    obtain ⟨v, hv, rfl⟩ := List.mem_map.1 hv'
    rw [attach_id] at hend
    rw [attach_edges]
    rcases List.mem_append.1 he with he | he
    · -- an edge already there keeps its count: the new id is another
      have hne : g.nextEdge ≠ e.id := (hs.edge_lt_next e he).ne'
      have hold := hs.listed_once e he v hv hend
      split <;> simp [List.count_append, hold, hne]
    · -- an end of the new edge takes its id, which it did not list
      obtain rfl := List.mem_singleton.1 he
      have htouch : (v.id.same (.int a) || v.id.same (.int b)) = true := by
        rcases hend with h | h <;> simp [h]
      rw [if_pos htouch, List.count_append, List.count_eq_zero.2 (hs.next_not_mem_edges hv)]
      simp
  incident v' hv' i hi := by
    obtain ⟨v, hv, rfl⟩ := List.mem_map.1 hv'
    rw [attach_edges] at hi
    rw [attach_id]
    split at hi
    · rename_i htouch
      rcases List.mem_append.1 hi with hi | hi
      · obtain ⟨e, he, hid, hinc⟩ := hs.incident v hv i hi
        exact ⟨e, List.mem_append_left _ he, hid, hinc⟩
      · -- the new edge, of which the vertex is an end
        obtain rfl := List.mem_singleton.1 hi
        obtain ⟨k, hk⟩ := hs.ids_int v hv
        refine ⟨_, List.mem_append_right _ (List.mem_singleton_self _), rfl, ?_⟩
        simp only [Bool.or_eq_true, Value.same_int_iff hk] at htouch
        rcases htouch with h | h <;> simp [h]
    · obtain ⟨e, he, hid, hinc⟩ := hs.incident v hv i hi
      exact ⟨e, List.mem_append_left _ he, hid, hinc⟩

/-- Without an explicit id a vertex is added under the next free id, and never refused. -/
theorem addVertex_next (hs : g.Sound) (p : Vec3) : (g.addVertex p).2 = .ok g.nextVertex := by
  obtain ⟨n, hn, hbelow⟩ := hs.below_next
  have hfree : ¬ g.hasVertex (.int n) = true := by
    rw [hasVertex_int_iff hs.ids_int]
    intro hmem
    obtain ⟨v, hv, hid⟩ := List.mem_map.1 hmem
    obtain ⟨k, hk, hlt⟩ := hbelow v hv
    rw [hk, Value.int.injEq] at hid
    omega
  rw [addVertex_none, hn, addVertex_int g p n hn, if_neg hfree]

/-- Every edge id a vertex lists is found by the graph's lookup, as an edge the vertex is an end
of. -/
theorem edge_of_mem (hs : g.Sound) {v : SkeletonVertex} (hv : v ∈ g.vertices) {i : Nat}
    (hi : i ∈ v.edges) : ∃ e, g.edge (.int i) = .ok e ∧ (e.start = v.id ∨ e.stop = v.id) := by
  obtain ⟨e, he, rfl, hinc⟩ := hs.incident v hv i hi
  refine ⟨e, ?_, hinc⟩
  -- the lookup finds an edge of that id, and the ids are distinct
  have hfind : g.edges.find? (fun e' => (Value.int e'.id).same (.int e.id)) = some e := by
    have hsome : (g.edges.find? fun e' => (Value.int e'.id).same (.int e.id)).isSome :=
      List.find?_isSome.2 ⟨e, he, by simp⟩
    obtain ⟨e', hfound⟩ := Option.isSome_iff_exists.1 hsome
    have hsame := List.find?_some hfound
    simp only [Value.same_int, decide_eq_true_eq, Nat.cast_inj] at hsame
    rw [hfound, List.inj_on_of_nodup_map hs.edgeIds_nodup (List.mem_of_find?_eq_some hfound) he hsame]
  unfold edge
  rw [show (Value.int e.id).toKey = .ok (.int e.id) from rfl]
  simp only [bind, Except.bind]
  rw [hfind]

/-- From either end of an edge, the other end is the one the edge names. -/
theorem other_ends (hs : g.Sound) {e : SkeletonEdge} (he : e ∈ g.edges) :
    e.other e.start = e.stop ∧ e.other e.stop = e.start := by
  obtain ⟨hne, hstart, hstop⟩ := hs.ends e he
  obtain ⟨a, ha⟩ := hs.int_of_mem_vertexIds hstart
  obtain ⟨b, hb⟩ := hs.int_of_mem_vertexIds hstop
  have hab : a ≠ b := fun h => hne (by rw [ha, hb, h])
  unfold SkeletonEdge.other
  rw [ha, hb]
  simp [hab]

/-- A vertex lists each edge at most once, so no more edges than the graph has. -/
theorem length_edges_le (hs : g.Sound) {v : SkeletonVertex} (hv : v ∈ g.vertices) :
    v.edges.length ≤ g.edgeCount := by
  -- every listed edge is one the vertex is an end of, listed there once
  have hnd : v.edges.Nodup := List.nodup_iff_count_le_one.2 fun i => by
    by_cases hi : i ∈ v.edges
    · obtain ⟨e, he, rfl, hends⟩ := hs.incident v hv i hi
      exact (hs.listed_once e he v hv (hends.imp Eq.symm Eq.symm)).le
    · rw [List.count_eq_zero_of_not_mem hi]
      exact Nat.zero_le _
  have hsub : v.edges ⊆ g.edges.map (·.id) := fun i hi => by
    obtain ⟨e, he, rfl, -⟩ := hs.incident v hv i hi
    exact List.mem_map_of_mem he
  calc v.edges.length ≤ (g.edges.map (·.id)).length := (hnd.subperm hsub).length_le
    _ = g.edgeCount := List.length_map ..

end Sound

namespace Call

/-- A call keeps a graph sound, whether it fails or not. -/
theorem apply_sound {g : SkeletonGraph} (hs : g.Sound) : ∀ c : Call, (c.apply g).1.Sound
  | .addVertex p id? => by
    obtain ⟨n, hn, -⟩ := hs.below_next
    rw [apply, addVertex_map_int hn, addVertex_int g p _ hn]
    by_cases htaken : g.hasVertex (.int (id?.getD n)) = true
    · rw [if_pos htaken]
      exact hs
    · rw [if_neg htaken]
      exact hs.addVertex p hn fun hmem => htaken ((hasVertex_int_iff hs.ids_int _).2 hmem)
  | .addEdge a b => by
    cases h : g.addEdge (.int a) (.int b) with
    | error e =>
      rw [apply_addEdge_of_error h]
      exact hs
    | ok r =>
      obtain ⟨g', id⟩ := r
      rw [apply_addEdge_of_ok h]
      obtain ⟨ha, hb, hab, -, rfl⟩ := addEdge_ok h
      exact hs.addEdge ((hasVertex_int_iff hs.ids_int a).1 ha)
        ((hasVertex_int_iff hs.ids_int b).1 hb) (by simpa using hab)

/-- A call that fails on a sound graph leaves it as it was. -/
theorem apply_error {g : SkeletonGraph} (hs : g.Sound) {e : Error} :
    ∀ c : Call, (c.apply g).2 = .error e → (c.apply g).1 = g
  | .addVertex p id?, h => by
    obtain ⟨n, hn, -⟩ := hs.below_next
    rw [apply, addVertex_map_int hn, addVertex_int g p _ hn] at h ⊢
    by_cases htaken : g.hasVertex (.int (id?.getD n)) = true
    · rw [if_pos htaken]
    · rw [if_neg htaken] at h
      cases h
  | .addEdge a b, h => by
    cases hadd : g.addEdge (.int a) (.int b) with
    | error e => rw [apply_addEdge_of_error hadd]
    | ok r =>
      rw [apply_addEdge_of_ok hadd] at h
      cases h

end Call

/-- Every call keeps a graph sound, so every graph built by calls from an empty one is. -/
theorem build_sound (calls : List Call) : (build calls).Sound := by
  unfold build
  -- the invariant carried through the fold, from any sound start
  suffices h : ∀ g : SkeletonGraph, g.Sound →
      (calls.foldl (fun g c => (c.apply g).1) g).Sound from h {} sound_empty
  induction calls with
  | nil => exact fun g hs => hs
  | cons c cs ih => exact fun g hs => ih _ (Call.apply_sound hs c)

/-- **Graphs built by calls with integer ids.** Whatever calls built it from an empty graph:
every vertex id is an integer below the next free id, so a vertex added without an id takes
that one and is never refused; every edge joins two distinct vertices of the graph, each listing
it exactly once; every edge id a vertex lists is found by the lookup, as an edge the vertex is
an end of; from either end the other end is the one the edge names; and a call that fails leaves
the graph as it was: its vertices, its edges and both counters. -/
theorem build_incidence (calls : List Call) :
    let g := build calls
    (∃ n : Int, g.nextVertex = .int n ∧ ∀ v ∈ g.vertices, ∃ k : Int, v.id = .int k ∧ k < n) ∧
    (∀ p, (g.addVertex p).2 = .ok g.nextVertex) ∧
    (∀ e ∈ g.edges, e.start ≠ e.stop ∧ e.start ∈ g.vertexIds ∧ e.stop ∈ g.vertexIds ∧
      ∀ v ∈ g.vertices, v.id = e.start ∨ v.id = e.stop → v.edges.count e.id = 1) ∧
    (∀ v ∈ g.vertices, ∀ i ∈ v.edges,
      ∃ e, g.edge (.int i) = .ok e ∧ (e.start = v.id ∨ e.stop = v.id)) ∧
    (∀ e ∈ g.edges, e.other e.start = e.stop ∧ e.other e.stop = e.start) ∧
    (∀ (c : Call) (err : Error), (c.apply g).2 = .error err → (c.apply g).1 = g) := by
  intro g
  have hs : g.Sound := build_sound calls
  refine ⟨hs.below_next, hs.addVertex_next, fun e he => ?_, fun v hv i hi => hs.edge_of_mem hv hi,
    fun e he => hs.other_ends he, fun c err => Call.apply_error hs c⟩
  obtain ⟨hne, hstart, hstop⟩ := hs.ends e he
  exact ⟨hne, hstart, hstop, hs.listed_once e he⟩

/-- A text is no integer id: a vertex added under one is stored, and the call then fails, since
the next free id cannot be moved past a text; the failed call has changed the graph. -/
theorem text_id_failure_keeps_vertex :
    let r := ({} : SkeletonGraph).addVertex ⟨0.0, 0.0, 0.0⟩ (some (.str "x"))
    r.2 = .error .wrongType ∧ ({} : SkeletonGraph).vertexIds = [] ∧ r.1.vertexIds = [.str "x"] :=
  ⟨rfl, rfl, rfl⟩

end SkeletonGraph

end Exploration
