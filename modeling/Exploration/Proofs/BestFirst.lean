import Mathlib
import Exploration.Proofs.SearchPath

/-!
# Best-first search in exact arithmetic

The rounds of the search (`SearchState.run`) are written for any costs. Here the costs are exact:
real numbers, with `⊤` for a vertex not reached (`WithTop ℝ`). The steps listed out of each vertex
cost reals and carry an estimate `H` of what is left from the vertex they reach, and the estimate
is consistent (`Consistent`): along a step it drops by at most the step's cost. The search is then
the textbook best-first search with a consistent estimate:

* a vertex is closed only at the least cost of a walk of the search graph reaching it
  (`ExactInv.front_optimal`), so the goal mark is closed at the least cost of a walk to it, and
  the path read back through the predecessors is such a walk (`ExactInv.found`);
* nothing is left open only when no walk reaches the goal mark (`ExactInv.unreachable`).

A walk (`Walk`) starts at an entry vertex at the cost given with it and leaves each vertex other
than the goal mark by one of the steps listed out of it.

The argument is an invariant (`ExactInv`). The queue is sorted by key and holds, for every vertex
reached and not closed, an entry of key its cost plus its estimate, and no entry below that. A
closed vertex has the least cost of a walk to it and has been left by all its steps. Every cost
recorded is the cost of the walk read back through the predecessors. The frontier lemma
(`ExactInv.frontier`) says that a walk to a vertex not closed passes an open vertex whose cost
plus estimate is at most the walk's cost plus the vertex's estimate; since the first entry of the
queue has the least key, the vertex it closes has its least cost.
-/

namespace Exploration

instance : Unreached (WithTop ℝ) := ⟨⊤⟩

namespace VertexRef

variable {β : Type}

/-- On references of integer ids the table's latest entry for a vertex is found by equality. -/
theorem lookup_cons_self {k : VertexRef} (hk : k.IsInt) (x : β) (table : List (VertexRef × β)) :
    lookup ((k, x) :: table) k = some x := by
  rw [lookup_cons, if_pos ((beq_iff_eq hk hk).2 rfl)]

theorem lookup_cons_of_ne {k v : VertexRef} (hk : k.IsInt) (hv : v.IsInt) (hne : k ≠ v) (x : β)
    (table : List (VertexRef × β)) : lookup ((k, x) :: table) v = lookup table v := by
  rw [lookup_cons, if_neg (fun hb => hne ((beq_iff_eq hk hv).1 hb))]

end VertexRef

namespace OpenQueue

@[simp] theorem length_insert {K : Type} [LT K] [DecidableRel (α := K) (· < ·)] (q : OpenQueue K)
    (e : K × Nat × VertexRef) : (q.insert e).length = q.length + 1 := by
  induction q with
  | nil => rfl
  | cons x q ih =>
    unfold insert
    split
    · rfl
    · simp [ih]

variable {K : Type} [LinearOrder K]

/-- Inserting keeps the queue sorted by key. -/
theorem pairwise_insert {q : OpenQueue K} (hq : q.Pairwise fun a b => a.1 ≤ b.1)
    (e : K × Nat × VertexRef) : (q.insert e).Pairwise fun a b => a.1 ≤ b.1 := by
  induction q with
  | nil => exact List.pairwise_singleton _ _
  | cons x q ih =>
    rw [List.pairwise_cons] at hq
    unfold insert
    split
    · rename_i hlt
      refine List.Pairwise.cons (fun y hy => ?_) (List.Pairwise.cons hq.1 hq.2)
      rcases List.mem_cons.1 hy with rfl | hy
      · exact hlt.le
      · exact hlt.le.trans (hq.1 y hy)
    · rename_i hge
      refine List.Pairwise.cons (fun y hy => ?_) (ih hq.2)
      rcases mem_insert.1 hy with rfl | hy
      · exact le_of_not_gt hge
      · exact hq.1 y hy

end OpenQueue

namespace SearchState

section Rounds

variable {K : Type} [Add K] [LT K] [DecidableRel (α := K) (· < ·)] [Unreached K]
  {atLimit : Nat → Except Error Bool} {next : VertexRef → Except Error (List (VertexRef × K × K))}

/-- A step queues at most one entry, for the vertex it leads to. -/
theorem relax_queue (st : SearchState K) (u v : VertexRef) (step h : K) :
    (st.relax u v step h).queue.length ≤ st.queue.length + 1 ∧
      ∀ e ∈ (st.relax u v step h).queue, e ∈ st.queue ∨ e.2.2 = v := by
  rcases relax_cases st u v step h with heq | ⟨-, -, heq⟩
  · rw [heq]
    exact ⟨Nat.le_succ _, fun e he => .inl he⟩
  · rw [heq]
    refine ⟨by dsimp only; rw [OpenQueue.length_insert], fun e he => ?_⟩
    rcases OpenQueue.mem_insert.1 he with rfl | he
    · exact .inr rfl
    · exact .inl he

/-- Leaving a vertex by its steps queues at most one entry a step, each for a vertex a step leads
to. -/
theorem relaxAll_queue (u : VertexRef) :
    ∀ (L : List (VertexRef × K × K)) (st : SearchState K),
      (st.relaxAll u L).queue.length ≤ st.queue.length + L.length ∧
      ∀ e ∈ (st.relaxAll u L).queue, e ∈ st.queue ∨ ∃ s ∈ L, e.2.2 = s.1
  | [], st => ⟨le_rfl, fun e he => .inl he⟩
  | s :: L, st => by
    rw [relaxAll_cons]
    obtain ⟨hlen, hmem⟩ := relaxAll_queue u L (st.relax u s.1 s.2.1 s.2.2)
    obtain ⟨hlen₁, hmem₁⟩ := relax_queue st u s.1 s.2.1 s.2.2
    refine ⟨by rw [List.length_cons]; omega, fun e he => ?_⟩
    rcases hmem e he with he | ⟨s', hs', he⟩
    · rcases hmem₁ e he with he | he
      · exact .inl he
      · exact .inr ⟨s, List.mem_cons_self .., he⟩
    · exact .inr ⟨s', List.mem_cons_of_mem _ hs', he⟩

/-- Queuing a vertex with no predecessor closes nothing and queues at most one entry, for the
vertex. -/
theorem offer_none_queue (st : SearchState K) (v : VertexRef) (g h : K) :
    (st.offer v none g h).closed = st.closed ∧
      (st.offer v none g h).queue.length ≤ st.queue.length + 1 ∧
      ∀ e ∈ (st.offer v none g h).queue, e ∈ st.queue ∨ e.2.2 = v := by
  rcases offer_none_cases st v g h with heq | ⟨-, heq⟩
  · rw [heq]
    exact ⟨rfl, Nat.le_succ _, fun e he => .inl he⟩
  · rw [heq]
    refine ⟨rfl, by dsimp only; rw [OpenQueue.length_insert], fun e he => ?_⟩
    rcases OpenQueue.mem_insert.1 he with rfl | he
    · exact .inr rfl
    · exact .inl he

/-- Queuing items in turn, each as a vertex with its cost and estimate and no predecessor, closes
nothing and queues at most one entry an item, each for an item's vertex. -/
theorem offer_foldl_queue {α : Type} (f : α → VertexRef × K × K) :
    ∀ (l : List α) (st st' : SearchState K),
      l.foldl (fun st x => st.offer (f x).1 none (f x).2.1 (f x).2.2) st = st' →
      st'.closed = st.closed ∧ st'.queue.length ≤ st.queue.length + l.length ∧
        ∀ e ∈ st'.queue, e ∈ st.queue ∨ ∃ x ∈ l, e.2.2 = (f x).1
  | [], st, st', h => by
    rw [List.foldl_nil] at h
    subst h
    exact ⟨rfl, Nat.le_add_right _ _, fun e he => .inl he⟩
  | x :: l, st, st', h => by
    rw [List.foldl_cons] at h
    obtain ⟨hclosed, hlen, hmem⟩ := offer_foldl_queue f l _ st' h
    obtain ⟨hclosed₁, hlen₁, hmem₁⟩ := offer_none_queue st (f x).1 (f x).2.1 (f x).2.2
    refine ⟨hclosed.trans hclosed₁, by rw [List.length_cons]; omega, fun e he => ?_⟩
    rcases hmem e he with he | ⟨y, hy, hey⟩
    · rcases hmem₁ e he with he | he
      · exact .inl he
      · exact .inr ⟨x, List.mem_cons_self .., he⟩
    · exact .inr ⟨y, List.mem_cons_of_mem _ hy, hey⟩

/-- **Where the rounds end.** A property of states that the rounds keep, when they drop an entry
of a closed vertex and when they close a vertex other than the goal mark and leave it by its
steps, holds where the rounds end: at the state they stop in, or, when they close the goal mark,
at the state before, whose first entry is the goal mark's, under the iteration limit. -/
theorem run_ends (P : SearchState K → Prop)
    (hpop : ∀ st k t u rest, P st → st.queue = (k, t, u) :: rest → st.closed.contains u = true →
      P { st with queue := rest })
    (hround : ∀ st k t u rest L, P st → st.queue = (k, t, u) :: rest →
      st.closed.contains u = false → (u == VertexRef.goal) = false → next u = .ok L →
      P ({ st with queue := rest, closed := u :: st.closed,
                   iterations := st.iterations + 1 }.relaxAll u L)) :
    ∀ (fuel : Nat) (st : SearchState K) (e : SearchEnd K), P st →
      st.run atLimit next fuel = .ok e →
      match e with
      | .found st' u => ∃ st₀ k t rest, P st₀ ∧ st₀.queue = (k, t, u) :: rest ∧
          st₀.closed.contains u = false ∧ (u == VertexRef.goal) = true ∧
          atLimit st₀.iterations = .ok false ∧
          st' = { st₀ with queue := rest, closed := u :: st₀.closed,
                           iterations := st₀.iterations + 1 }
      | .limit st' => P st' ∧ atLimit st'.iterations = .ok true
      | .exhausted st' => P st'
  | 0, st, e, hP, h => by
    rw [run] at h
    cases h
    exact hP
  | fuel + 1, st, e, hP, h => by
    rw [run] at h
    split at h
    · cases h
      exact hP
    · rename_i k t u rest hq
      split at h
      · cases h
      · cases h
        exact ⟨hP, by assumption⟩
      · rename_i hlim
        split at h
        · -- an entry of a vertex closed before is dropped
          rename_i hclosed
          exact run_ends P hpop hround fuel _ e (hpop st k t u rest hP hq hclosed) h
        · rename_i hopen
          split at h
          · -- the goal mark is closed
            rename_i hgoal
            cases h
            exact ⟨st, k, t, rest, hP, hq, by simpa using hopen, hgoal, hlim, rfl⟩
          · rename_i hgoal
            obtain ⟨L, hL, h⟩ := bind_eq_ok.1 h
            exact run_ends P hpop hround fuel _ e
              (hround st k t u rest L hP hq (by simpa using hopen) (by simpa using hgoal) hL) h

/-- **Rounds enough.** When every vertex the search can close lies in `V` and lists at most `D`
steps, each to a vertex of `V` or to the goal mark, the search given more rounds than entries it
can queue (those queued, and `D` for each vertex of `V` still to close) stops for want of rounds
only with nothing queued. -/
theorem run_exhausted_empty (V : List VertexRef) (D : Nat)
    (hV : ∀ u ∈ V, u.IsInt → u ≠ VertexRef.goal → ∀ L, next u = .ok L →
      L.length ≤ D ∧ ∀ s ∈ L, s.1.IsInt ∧ (s.1 ∈ V ∨ s.1 = VertexRef.goal)) :
    ∀ (fuel : Nat) (st st' : SearchState K), st.closed.Nodup → (∀ x ∈ st.closed, x ∈ V) →
      (∀ e ∈ st.queue, e.2.2.IsInt ∧ (e.2.2 ∈ V ∨ e.2.2 = VertexRef.goal)) →
      st.queue.length + D * (V.length - st.closed.length) < fuel →
      st.run atLimit next fuel = .ok (.exhausted st') → st'.queue = []
  | 0, _, _, _, _, _, hfuel, _ => absurd hfuel (Nat.not_lt_zero _)
  | fuel + 1, st, st', hnodup, hsub, hqueue, hfuel, h => by
    rw [run] at h
    split at h
    · cases h
      assumption
    · rename_i k t u rest hq
      have hfront := hqueue (k, t, u) (hq ▸ List.mem_cons_self ..)
      have hrest : ∀ e ∈ rest, e.2.2.IsInt ∧ (e.2.2 ∈ V ∨ e.2.2 = VertexRef.goal) :=
        fun e he => hqueue e (hq ▸ List.mem_cons_of_mem _ he)
      have hlen : st.queue.length = rest.length + 1 := by rw [hq, List.length_cons]
      split at h
      · cases h
      · cases h
      · split at h
        · -- an entry of a closed vertex is dropped: one entry fewer
          exact run_exhausted_empty V D hV fuel ({ st with queue := rest } : SearchState K) st'
            hnodup hsub hrest (show rest.length + D * (V.length - st.closed.length) < fuel by omega) h
        · rename_i hopen
          split at h
          · cases h
          · rename_i hgoal
            obtain ⟨L, hL, h⟩ := bind_eq_ok.1 h
            -- a vertex newly closed, of `V`: its steps queue at most `D` entries
            have hu : u ∉ st.closed := fun hm => hopen (List.contains_iff_exists_mem_beq.2
              ⟨u, hm, (VertexRef.beq_iff_eq hfront.1 hfront.1).2 rfl⟩)
            have hne : u ≠ VertexRef.goal := fun heq =>
              hgoal ((VertexRef.beq_iff_eq hfront.1 VertexRef.goal_isInt).2 heq)
            have huV : u ∈ V := hfront.2.resolve_right hne
            have hnodup' : (u :: st.closed).Nodup := List.nodup_cons.2 ⟨hu, hnodup⟩
            have hcount : (u :: st.closed).length ≤ V.length :=
              (hnodup'.subperm fun x hx => by
                rcases List.mem_cons.1 hx with rfl | hx
                · exact huV
                · exact hsub x hx).length_le
            obtain ⟨hLlen, hLV⟩ := hV u huV hfront.1 hne L hL
            obtain ⟨hqlen, hqmem⟩ := relaxAll_queue u L
              { st with queue := rest, closed := u :: st.closed, iterations := st.iterations + 1 }
            refine run_exhausted_empty V D hV fuel _ st' ?_ ?_ ?_ ?_ h
            · rw [relaxAll_closed]
              exact hnodup'
            · rw [relaxAll_closed]
              intro x hx
              rcases List.mem_cons.1 hx with rfl | hx
              · exact huV
              · exact hsub x hx
            · intro e he
              rcases hqmem e he with he | ⟨s, hs, hes⟩
              · exact hrest e he
              · rw [hes]
                exact hLV s hs
            · rw [relaxAll_closed]
              simp only [List.length_cons] at hqlen hcount ⊢
              have hD : D * (V.length - st.closed.length) =
                  D * (V.length - (st.closed.length + 1)) + D := by
                rw [show V.length - st.closed.length = V.length - (st.closed.length + 1) + 1 by omega,
                  Nat.mul_succ]
              omega

/-- **The rounds answer.** When the iteration limit can always be compared and every vertex the
search can close lists its steps, each to such a vertex or to the goal mark, the rounds give an
answer: they raise no error. -/
theorem run_ok (V : List VertexRef) (hlim : ∀ n, ∃ b, atLimit n = .ok b)
    (hV : ∀ u ∈ V, u.IsInt → u ≠ VertexRef.goal → ∃ L, next u = .ok L ∧
      ∀ s ∈ L, s.1.IsInt ∧ (s.1 ∈ V ∨ s.1 = VertexRef.goal)) :
    ∀ (fuel : Nat) (st : SearchState K),
      (∀ e ∈ st.queue, e.2.2.IsInt ∧ (e.2.2 ∈ V ∨ e.2.2 = VertexRef.goal)) →
      ∃ e, st.run atLimit next fuel = .ok e
  | 0, _, _ => ⟨_, rfl⟩
  | fuel + 1, st, hqueue => by
    rw [run]
    split
    · exact ⟨_, rfl⟩
    · rename_i k t u rest hq
      have hfront := hqueue (k, t, u) (hq ▸ List.mem_cons_self ..)
      have hrest : ∀ e ∈ rest, e.2.2.IsInt ∧ (e.2.2 ∈ V ∨ e.2.2 = VertexRef.goal) :=
        fun e he => hqueue e (hq ▸ List.mem_cons_of_mem _ he)
      obtain ⟨b, hb⟩ := hlim st.iterations
      rw [hb]
      cases b with
      | true => exact ⟨_, rfl⟩
      | false =>
        dsimp only
        split
        · exact run_ok V hlim hV fuel _ hrest
        · split
          · exact ⟨_, rfl⟩
          · rename_i hgoal
            have hne : u ≠ VertexRef.goal := fun heq =>
              hgoal ((VertexRef.beq_iff_eq hfront.1 VertexRef.goal_isInt).2 heq)
            obtain ⟨L, hL, hLV⟩ := hV u (hfront.2.resolve_right hne) hfront.1 hne
            rw [hL]
            obtain ⟨-, hqmem⟩ := relaxAll_queue u L
              { st with queue := rest, closed := u :: st.closed, iterations := st.iterations + 1 }
            exact run_ok V hlim hV fuel _ fun e he => by
              rcases hqmem e he with he | ⟨s, hs, hes⟩
              · exact hrest e he
              · rw [hes]
                exact hLV s hs

end Rounds

section Exact

/-- Offering a vertex leaves every other vertex's cost as it was. -/
theorem costOf_offer_of_ne (st : SearchState (WithTop ℝ)) {v x : VertexRef} (hv : v.IsInt)
    (hx : x.IsInt) (hne : v ≠ x) (via : Option VertexRef) (g h : WithTop ℝ) :
    (st.offer v via g h).costOf x = st.costOf x := by
  unfold offer costOf
  split
  · dsimp only
    rw [VertexRef.lookup_cons_of_ne hv hx hne]
  · rfl

/-- Offering a vertex leaves it at the least of its cost and the cost offered. -/
theorem costOf_offer_self (st : SearchState (WithTop ℝ)) {v : VertexRef} (hv : v.IsInt)
    (via : Option VertexRef) (g h : WithTop ℝ) :
    (st.offer v via g h).costOf v = min g (st.costOf v) := by
  unfold offer
  split
  · rename_i hlt
    rw [min_eq_left hlt.le]
    unfold costOf
    dsimp only
    rw [VertexRef.lookup_cons_self hv]
    rfl
  · rename_i hge
    rw [min_eq_right (le_of_not_gt hge)]

/-- Offering never raises a cost. -/
theorem costOf_offer_le (st : SearchState (WithTop ℝ)) {v x : VertexRef} (hv : v.IsInt)
    (hx : x.IsInt) (via : Option VertexRef) (g h : WithTop ℝ) :
    (st.offer v via g h).costOf x ≤ st.costOf x := by
  by_cases hvx : v = x
  · subst hvx
    rw [costOf_offer_self st hv]
    exact min_le_right _ _
  · rw [costOf_offer_of_ne st hv hx hvx]

/-- A step to a vertex leaves every vertex other than it at its cost. -/
theorem costOf_relax_of_ne (st : SearchState (WithTop ℝ)) (u : VertexRef) {v x : VertexRef}
    (hv : v.IsInt) (hx : x.IsInt) (hne : v ≠ x) (step h : WithTop ℝ) :
    (st.relax u v step h).costOf x = st.costOf x := by
  unfold relax
  split
  · rfl
  · exact costOf_offer_of_ne st hv hx hne _ _ _

/-- A step never raises a cost. -/
theorem costOf_relax_le (st : SearchState (WithTop ℝ)) (u : VertexRef) {v x : VertexRef}
    (hv : v.IsInt) (hx : x.IsInt) (step h : WithTop ℝ) :
    (st.relax u v step h).costOf x ≤ st.costOf x := by
  unfold relax
  split
  · exact le_rfl
  · exact costOf_offer_le st hv hx _ _ _

/-- A step to a closed vertex changes nothing. -/
theorem relax_of_mem_closed (st : SearchState (WithTop ℝ)) (hclosed : ∀ x ∈ st.closed, x.IsInt)
    (u : VertexRef) {v : VertexRef} (hv : v.IsInt) (hmem : v ∈ st.closed) (step h : WithTop ℝ) :
    st.relax u v step h = st := by
  unfold relax
  rw [if_pos ((VertexRef.contains_iff_mem hclosed hv).2 hmem)]

/-- A step leaves the cost of every closed vertex as it was. -/
theorem costOf_relax_closed (st : SearchState (WithTop ℝ)) (hclosed : ∀ x ∈ st.closed, x.IsInt)
    (u : VertexRef) {v x : VertexRef} (hv : v.IsInt) (hx : x ∈ st.closed) (step h : WithTop ℝ) :
    (st.relax u v step h).costOf x = st.costOf x := by
  by_cases hvx : v = x
  · subst hvx
    rw [relax_of_mem_closed st hclosed u hv hx]
  · exact costOf_relax_of_ne st u hv (hclosed x hx) hvx step h

end Exact

/-- The path read back ends at its vertex. -/
theorem getLast_pathTo {K : Type} (st : SearchState K) :
    ∀ (n : Nat) (v : VertexRef), (st.pathTo v n).getLast? = some v
  | 0, v => rfl
  | n + 1, v => by
    unfold pathTo
    split
    · rw [List.getLast?_concat]
    · rfl

theorem mem_pathTo_self {K : Type} (st : SearchState K) (n : Nat) (v : VertexRef) :
    v ∈ st.pathTo v n :=
  List.mem_of_getLast? (getLast_pathTo st n v)

/-- A new predecessor recorded for `w` leaves the path read back to a vertex as it was when `w`
is not on it. -/
theorem pathTo_of_parent_cons {K : Type} {st st' : SearchState K} {w u : VertexRef}
    (hp : st'.parent = (w, u) :: st.parent) (hw : w.IsInt) :
    ∀ (n : Nat) (x : VertexRef), (∀ y ∈ st.pathTo x n, y.IsInt) → w ∉ st.pathTo x n →
      st'.pathTo x n = st.pathTo x n
  | 0, x, _, _ => rfl
  | n + 1, x, hint, hnot => by
    have hx : w ≠ x := fun h => hnot (h ▸ mem_pathTo_self st (n + 1) x)
    have hlook : VertexRef.lookup st'.parent x = VertexRef.lookup st.parent x := by
      rw [hp, VertexRef.lookup_cons_of_ne hw (hint x (mem_pathTo_self st (n + 1) x)) hx]
    -- the chain back from `x` is the old one step by step
    cases hl : VertexRef.lookup st.parent x with
    | none =>
      rw [pathTo_succ_of_lookup_none (hlook.trans hl), pathTo_succ_of_lookup_none hl]
    | some p =>
      rw [pathTo_succ_of_lookup hl] at hint hnot
      rw [pathTo_succ_of_lookup (hlook.trans hl), pathTo_succ_of_lookup hl,
        pathTo_of_parent_cons hp hw n p (fun y hy => hint y (List.mem_append_left _ hy))
          (fun h => hnot (List.mem_append_left _ h))]

end SearchState

section Walks

variable (E : List (VertexRef × ℝ))
  (next : VertexRef → Except Error (List (VertexRef × WithTop ℝ × WithTop ℝ)))

/-- A walk of the search graph and its cost: it starts at an entry `(v, c)` at cost `c`, and each
step leaves a vertex other than the goal mark by one of the steps listed out of it, at that
step's cost. -/
inductive Walk : List VertexRef → ℝ → Prop
  | start {v : VertexRef} {c : ℝ} : (v, c) ∈ E → Walk [v] c
  | step {ws : List VertexRef} {u v : VertexRef} {c δ : ℝ}
      {L : List (VertexRef × WithTop ℝ × WithTop ℝ)} {h : WithTop ℝ} :
      Walk ws c → ws.getLast? = some u → u ≠ VertexRef.goal → next u = .ok L →
      (v, (δ : WithTop ℝ), h) ∈ L → Walk (ws ++ [v]) (c + δ)

/-- The steps listed out of every vertex of integer ids other than the goal mark lead to vertices
of integer ids, cost reals and carry the estimate `H` of the vertex they reach, and the estimate
is consistent: `H u ≤ δ + H v` along a step of cost `δ` from `u` to `v`. -/
def Consistent (H : VertexRef → ℝ) : Prop :=
  ∀ u, u.IsInt → u ≠ VertexRef.goal → ∀ L, next u = .ok L → ∀ s ∈ L,
    s.1.IsInt ∧ ∃ δ : ℝ, s.2.1 = δ ∧ s.2.2 = H s.1 ∧ H u ≤ δ + H s.1

variable {E next} {H : VertexRef → ℝ}

/-- The vertices of a walk have integer ids, when the entry vertices and the steps' ends do. -/
theorem Walk.isInt (hE : ∀ x ∈ E, x.1.IsInt) (hcons : Consistent next H) {ws : List VertexRef}
    {c : ℝ} (hw : Walk E next ws c) : ∀ v ∈ ws, v.IsInt := by
  induction hw with
  | start hv =>
    intro w hw
    rw [List.mem_singleton] at hw
    exact hw ▸ hE _ hv
  | step _ hlast hu hL hs ih =>
    intro w hw
    rcases List.mem_append.1 hw with hw | hw
    · exact ih w hw
    · rw [List.mem_singleton] at hw
      exact hw ▸ (hcons _ (ih _ (List.mem_of_getLast? hlast)) hu _ hL _ hs).1

end Walks

namespace SearchState

variable (E : List (VertexRef × ℝ))
  (next : VertexRef → Except Error (List (VertexRef × WithTop ℝ × WithTop ℝ))) (H : VertexRef → ℝ)

/-- Every step of `L` out of `u` has been tried: it leads to a closed vertex, or to one whose
cost is at most that of `u` plus the step's. -/
def Relaxed (st : SearchState (WithTop ℝ)) (u : VertexRef)
    (L : List (VertexRef × WithTop ℝ × WithTop ℝ)) : Prop :=
  ∀ s ∈ L, s.1 ∈ st.closed ∨ st.costOf s.1 ≤ st.costOf u + s.2.1

/-- The cost recorded for `v` is that of a walk to it, with no vertex twice and all but `v`
closed, which is the path read back through the predecessors. -/
def Traced (st : SearchState (WithTop ℝ)) (v : VertexRef) : Prop :=
  ∃ ws, ∃ c : ℝ, st.costOf v = c ∧ Walk E next ws c ∧ ws.getLast? = some v ∧
    (∀ w ∈ ws.dropLast, w ∈ st.closed) ∧ ws.Nodup ∧ ∀ n, ws.length ≤ n + 1 → st.pathTo v n = ws

/-- What every state of a search in exact arithmetic keeps, from entries `E` with steps `next`
and estimate `H`. The queue is sorted by key; its entries are of integer ids and finite keys, at
least the cost plus the estimate of their vertex; every vertex reached and not closed has an entry
of key at most its cost plus estimate. Closed vertices are distinct real vertices, reached, at the
least cost of a walk to them. Entry vertices are closed or at most at their entry cost. Every cost
recorded is traced, and the iterations count the closed vertices. -/
structure ExactInv (st : SearchState (WithTop ℝ)) : Prop where
  sorted : st.queue.Pairwise fun a b => a.1 ≤ b.1
  queued : ∀ e ∈ st.queue, e.2.2.IsInt ∧ e.1 ≠ ⊤ ∧ st.costOf e.2.2 + (H e.2.2 : WithTop ℝ) ≤ e.1
  latest : ∀ v, v.IsInt → v ∉ st.closed → st.costOf v ≠ ⊤ →
    ∃ e ∈ st.queue, e.2.2 = v ∧ e.1 ≤ st.costOf v + (H v : WithTop ℝ)
  closed : ∀ u ∈ st.closed, u.IsInt ∧ u ≠ VertexRef.goal ∧ st.costOf u ≠ ⊤
  closed_nodup : st.closed.Nodup
  optimal : ∀ u ∈ st.closed, ∀ ws c, Walk E next ws c → ws.getLast? = some u → st.costOf u ≤ c
  entries : ∀ x ∈ E, x.1 ∈ st.closed ∨ st.costOf x.1 ≤ x.2
  traced : ∀ v, v.IsInt → st.costOf v ≠ ⊤ → Traced E next st v
  iterations : st.iterations = st.closed.length

/-- Every closed vertex has been left by all its steps. -/
def Expanded (st : SearchState (WithTop ℝ)) : Prop :=
  ∀ u ∈ st.closed, ∀ L, next u = .ok L → Relaxed st u L

variable {E next H}

section Frontier

variable {st : SearchState (WithTop ℝ)} (hinv : ExactInv E next H st) (hexp : Expanded next st)
  (hE : ∀ x ∈ E, x.1.IsInt) (hcons : Consistent next H)
include hinv hexp hE hcons

/-- **The frontier lemma.** A walk to a vertex that is not closed passes an open vertex, reached,
whose cost plus estimate is at most the walk's cost plus the estimate of its end. -/
theorem ExactInv.frontier {ws : List VertexRef} {c : ℝ} (hw : Walk E next ws c) {x : VertexRef}
    (hx : ws.getLast? = some x) :
    x ∈ st.closed ∨ ∃ w, w.IsInt ∧ w ∉ st.closed ∧ st.costOf w ≠ ⊤ ∧
      st.costOf w + (H w : WithTop ℝ) ≤ (c : WithTop ℝ) + (H x : WithTop ℝ) := by
  induction hw generalizing x with
  | @start v c hv =>
    rw [List.getLast?_singleton, Option.some.injEq] at hx
    subst hx
    rcases hinv.entries _ hv with h | h
    · exact .inl h
    · by_cases hvc : v ∈ st.closed
      · exact .inl hvc
      · exact .inr ⟨v, hE _ hv, hvc, ne_top_of_le_ne_top WithTop.coe_ne_top h,
          add_le_add h le_rfl⟩
  | @step ws u v c δ L h hw hu hgoal hL hs ih =>
    rw [List.getLast?_concat, Option.some.injEq] at hx
    subst hx
    have huint : u.IsInt := Walk.isInt hE hcons hw u (List.mem_of_getLast? hu)
    obtain ⟨-, δ', hδ, -, hHu⟩ := hcons u huint hgoal L hL _ hs
    have hδδ : δ = δ' := WithTop.coe_inj.1 hδ
    subst hδδ
    -- the estimate drops along the step by at most its cost
    have hdrop : (c : WithTop ℝ) + (H u : WithTop ℝ) ≤
        ((c + δ : ℝ) : WithTop ℝ) + (H v : WithTop ℝ) := by
      rw [← WithTop.coe_add, ← WithTop.coe_add, WithTop.coe_le_coe]
      linarith
    rcases ih hu with hclosed | ⟨w, hwint, hwopen, hwfin, hwle⟩
    · -- the walk's last step leaves a closed vertex: it was tried
      rcases hexp u hclosed L hL _ hs with hv | hv
      · exact .inl hv
      · by_cases hvc : v ∈ st.closed
        · exact .inl hvc
        · have hcu := hinv.optimal u hclosed ws c hw hu
          have hle : st.costOf v ≤ ((c + δ : ℝ) : WithTop ℝ) := by
            calc st.costOf v ≤ st.costOf u + (δ : WithTop ℝ) := hv
              _ ≤ (c : WithTop ℝ) + (δ : WithTop ℝ) := add_le_add hcu le_rfl
              _ = ((c + δ : ℝ) : WithTop ℝ) := (WithTop.coe_add _ _).symm
          exact .inr ⟨v, (hcons u huint hgoal L hL _ hs).1, hvc,
            ne_top_of_le_ne_top WithTop.coe_ne_top hle, add_le_add hle le_rfl⟩
    · exact .inr ⟨w, hwint, hwopen, hwfin, hwle.trans hdrop⟩

/-- **The vertex closed next has its least cost**: no walk reaches it more cheaply. -/
theorem ExactInv.front_optimal {k : WithTop ℝ} {t : Nat} {u : VertexRef}
    {rest : OpenQueue (WithTop ℝ)} (hq : st.queue = (k, t, u) :: rest) (hu : u ∉ st.closed)
    {ws : List VertexRef} {c : ℝ} (hw : Walk E next ws c) (hlast : ws.getLast? = some u) :
    st.costOf u ≤ c := by
  rcases hinv.frontier hexp hE hcons hw hlast with hclosed | ⟨w, hwint, hwopen, hwfin, hwle⟩
  · exact absurd hclosed hu
  · obtain ⟨e, he, hew, hkey⟩ := hinv.latest w hwint hwopen hwfin
    have hfront := hinv.queued (k, t, u) (hq ▸ List.mem_cons_self ..)
    -- the first entry has the least key
    have hk : k ≤ e.1 := by
      have hsorted := hinv.sorted
      rw [hq] at he hsorted
      rcases List.mem_cons.1 he with rfl | he
      · exact le_rfl
      · exact (List.pairwise_cons.1 hsorted).1 e he
    have hsum : st.costOf u + (H u : WithTop ℝ) ≤ (c : WithTop ℝ) + (H u : WithTop ℝ) :=
      calc st.costOf u + (H u : WithTop ℝ) ≤ k := hfront.2.2
        _ ≤ e.1 := hk
        _ ≤ st.costOf w + (H w : WithTop ℝ) := hew ▸ hkey
        _ ≤ (c : WithTop ℝ) + (H u : WithTop ℝ) := hwle
    exact (WithTop.add_le_add_iff_right WithTop.coe_ne_top).1 hsum

end Frontier

section Rounds

variable {st : SearchState (WithTop ℝ)} (hE : ∀ x ∈ E, x.1.IsInt) (hcons : Consistent next H)
include hE hcons

/-- A trace survives a step that records a new predecessor for a vertex `v` other than the traced
one and not closed, as long as the traced cost and the closed vertices stay. -/
theorem Traced.of_parent_cons {st' : SearchState (WithTop ℝ)} {x v w : VertexRef}
    (htr : Traced E next st x) (hvx : v ≠ x) (hv : v.IsInt) (hopen : v ∉ st.closed)
    (hp : st'.parent = (v, w) :: st.parent) (hc : st'.costOf x = st.costOf x)
    (hclosed : st'.closed = st.closed) : Traced E next st' x := by
  obtain ⟨ws, c, hcost, hw, hlast, hdrop, hnodup, hpath⟩ := htr
  -- `v` is not on the path: all of it but `x` is closed
  have hnot : v ∉ ws := by
    intro hmem
    rw [← List.dropLast_append_getLast? x hlast, List.mem_append, List.mem_singleton] at hmem
    rcases hmem with hmem | rfl
    · exact hopen (hdrop v hmem)
    · exact hvx rfl
  refine ⟨ws, c, hc.trans hcost, hw, hlast, fun y hy => hclosed ▸ hdrop y hy, hnodup, ?_⟩
  intro n hn
  rw [← hpath n hn]
  exact SearchState.pathTo_of_parent_cons hp hv n x
    (fun y hy => Walk.isInt hE hcons hw y (hpath n hn ▸ hy)) (hpath n hn ▸ hnot)

/-- A trace to a closed vertex `u` extends by a step out of `u` to a vertex `v` not closed, once
the step records `u` as the predecessor of `v` at the cost of `u` plus the step. -/
theorem Traced.snoc {st' : SearchState (WithTop ℝ)} {u v : VertexRef} {δ : ℝ}
    {L : List (VertexRef × WithTop ℝ × WithTop ℝ)} {h : WithTop ℝ}
    (htr : Traced E next st u) (hu : u ∈ st.closed) (hugoal : u ≠ VertexRef.goal)
    (hL : next u = .ok L) (hs : (v, (δ : WithTop ℝ), h) ∈ L) (hv : v.IsInt)
    (hvopen : v ∉ st.closed) (hp : st'.parent = (v, u) :: st.parent)
    (hc : st'.costOf v = st.costOf u + δ) (hclosed : st'.closed = st.closed) :
    Traced E next st' v := by
  obtain ⟨ws, c, hcost, hw, hlast, hdrop, hnodup, hpath⟩ := htr
  -- the walk to `u` runs through closed vertices, so not through `v`
  have hws : ∀ y ∈ ws, y ∈ st.closed := by
    intro y hy
    rw [← List.dropLast_append_getLast? u hlast, List.mem_append, List.mem_singleton] at hy
    rcases hy with hy | rfl
    · exact hdrop y hy
    · exact hu
  have hnot : v ∉ ws := fun hm => hvopen (hws v hm)
  refine ⟨ws ++ [v], c + δ, by rw [hc, hcost, WithTop.coe_add], hw.step hlast hugoal hL hs,
    List.getLast?_concat .., ?_, ?_, ?_⟩
  · intro y hy
    rw [List.dropLast_concat] at hy
    exact hclosed ▸ hws y hy
  · exact List.nodup_append.2 ⟨hnodup, List.nodup_singleton v,
      fun a ha b hb => by rw [List.mem_singleton] at hb; exact hb ▸ fun h => hnot (h ▸ ha)⟩
  · -- the path read back from `v` is the one read back from `u`, then `v`
    intro n hn
    have hpos : 0 < ws.length := List.length_pos_of_ne_nil (by rintro rfl; cases hlast)
    rw [List.length_append, List.length_singleton] at hn
    obtain ⟨m, rfl⟩ : ∃ m, n = m + 1 := ⟨n - 1, by omega⟩
    have hm : ws.length ≤ m + 1 := by omega
    have hlook : VertexRef.lookup st'.parent v = some u := by
      rw [hp, VertexRef.lookup_cons_self hv]
    rw [SearchState.pathTo_succ_of_lookup hlook, SearchState.pathTo_of_parent_cons hp hv m u
      (fun y hy => Walk.isInt hE hcons hw y (hpath m hm ▸ hy)) (hpath m hm ▸ hnot), hpath m hm]

/-- **One step out of a closed vertex keeps the invariant.** -/
theorem ExactInv.relax (hinv : ExactInv E next H st) {u : VertexRef} (hu : u ∈ st.closed)
    {L : List (VertexRef × WithTop ℝ × WithTop ℝ)} (hL : next u = .ok L)
    {s : VertexRef × WithTop ℝ × WithTop ℝ} (hs : s ∈ L) :
    ExactInv E next H (st.relax u s.1 s.2.1 s.2.2) := by
  obtain ⟨huint, hugoal, hufin⟩ := hinv.closed u hu
  obtain ⟨hvint, δ, hδ, hh, -⟩ := hcons u huint hugoal L hL s hs
  obtain ⟨v, d, e⟩ := s
  dsimp only at hvint hδ hh ⊢
  subst hδ hh
  have hclosedInt : ∀ x ∈ st.closed, x.IsInt := fun x hx => (hinv.closed x hx).1
  rcases relax_cases st u v (δ : WithTop ℝ) (H v : WithTop ℝ) with heq | ⟨hopen, hlt, heq⟩
  · rw [heq]
    exact hinv
  have hvopen : v ∉ st.closed := fun hm =>
    absurd ((VertexRef.contains_iff_mem hclosedInt hvint).2 hm) (by simp [hopen])
  set st' := st.relax u v (δ : WithTop ℝ) (H v : WithTop ℝ) with hst'
  -- what the step changes: the cost and predecessor of `v`, and one entry queued for it
  have hcv : st'.costOf v = st.costOf u + δ := by
    rw [heq]
    unfold costOf
    dsimp only
    rw [VertexRef.lookup_cons_self hvint]
    rfl
  have hcx : ∀ x, x.IsInt → x ≠ v → st'.costOf x = st.costOf x :=
    fun x hx hne => costOf_relax_of_ne st u hvint hx (Ne.symm hne) _ _
  have hle : ∀ x, x.IsInt → st'.costOf x ≤ st.costOf x :=
    fun x hx => costOf_relax_le st u hvint hx _ _
  have hcc : ∀ x ∈ st.closed, st'.costOf x = st.costOf x :=
    fun x hx => costOf_relax_closed st hclosedInt u hvint hx _ _
  have hparent : st'.parent = (v, u) :: st.parent := by rw [heq]
  have hqueue : st'.queue = st.queue.insert (st.costOf u + δ + H v, st.tickets + 1, v) := by
    rw [heq]
  have hclosed : st'.closed = st.closed := by rw [heq]
  have hfin : st.costOf u + (δ : WithTop ℝ) ≠ ⊤ := WithTop.add_ne_top.2 ⟨hufin, WithTop.coe_ne_top⟩
  refine ⟨?_, ?_, ?_, ?_, ?_, ?_, ?_, ?_, ?_⟩
  · rw [hqueue]
    exact OpenQueue.pairwise_insert hinv.sorted _
  · intro x hx
    rw [hqueue] at hx
    rcases OpenQueue.mem_insert.1 hx with rfl | hx
    · exact ⟨hvint, WithTop.add_ne_top.2 ⟨hfin, WithTop.coe_ne_top⟩, by rw [hcv]⟩
    · obtain ⟨hxint, hxfin, hxkey⟩ := hinv.queued x hx
      exact ⟨hxint, hxfin, (add_le_add (hle _ hxint) le_rfl).trans hxkey⟩
  · intro x hxint hxopen hxfin
    rw [hclosed] at hxopen
    by_cases hxv : x = v
    · subst hxv
      exact ⟨_, hqueue ▸ OpenQueue.mem_insert.2 (.inl rfl), rfl, by rw [hcv]⟩
    · rw [hcx x hxint hxv] at hxfin ⊢
      obtain ⟨y, hy, hyx, hykey⟩ := hinv.latest x hxint hxopen hxfin
      exact ⟨y, hqueue ▸ OpenQueue.mem_insert.2 (.inr hy), hyx, hykey⟩
  · intro x hx
    rw [hclosed] at hx
    rw [hcc x hx]
    exact hinv.closed x hx
  · rw [hclosed]
    exact hinv.closed_nodup
  · intro x hx ws c hw hlast
    rw [hclosed] at hx
    rw [hcc x hx]
    exact hinv.optimal x hx ws c hw hlast
  · intro x hx
    rw [hclosed]
    rcases hinv.entries x hx with h | h
    · exact .inl h
    · exact .inr ((hle _ (hE x hx)).trans h)
  · intro x hxint hxfin
    by_cases hxv : x = v
    · -- the new walk to `v` runs through `u`
      subst hxv
      exact (hinv.traced u huint hufin).snoc hE hcons hu hugoal hL hs hvint hvopen hparent hcv
        hclosed
    · rw [hcx x hxint hxv] at hxfin
      exact (hinv.traced x hxint hxfin).of_parent_cons hE hcons (Ne.symm hxv) hvint hvopen
        hparent (hcx x hxint hxv) hclosed
  · rw [relax_iterations, hclosed]
    exact hinv.iterations

omit hE hcons in
/-- A step out of any vertex keeps a closed vertex's record of the steps it tried. -/
theorem Relaxed.relax (hinv : ExactInv E next H st) {x : VertexRef} (hx : x ∈ st.closed)
    {L' : List (VertexRef × WithTop ℝ × WithTop ℝ)} (hL' : ∀ s ∈ L', s.1.IsInt)
    (hrel : Relaxed st x L') (u : VertexRef) {v : VertexRef} (hv : v.IsInt) (d h : WithTop ℝ) :
    Relaxed (st.relax u v d h) x L' := by
  have hclosedInt : ∀ y ∈ st.closed, y.IsInt := fun y hy => (hinv.closed y hy).1
  intro s hs
  rw [relax_closed]
  rcases hrel s hs with hsc | hsle
  · exact .inl hsc
  · right
    rw [costOf_relax_closed st hclosedInt u hv hx]
    exact (costOf_relax_le st u hv (hL' s hs) _ _).trans hsle

omit hE hcons in
/-- A step out of a closed vertex is tried. -/
theorem relaxed_relax_self (hinv : ExactInv E next H st) {u : VertexRef} (hu : u ∈ st.closed)
    {v : VertexRef} (hv : v.IsInt) (d h : WithTop ℝ) :
    Relaxed (st.relax u v d h) u [(v, d, h)] := by
  have hclosedInt : ∀ y ∈ st.closed, y.IsInt := fun y hy => (hinv.closed y hy).1
  intro s hs
  rw [List.mem_singleton] at hs
  subst hs
  rw [relax_closed]
  by_cases hvc : v ∈ st.closed
  · exact .inl hvc
  · right
    rw [costOf_relax_closed st hclosedInt u hv hu]
    -- a vertex not closed is offered the cost through `u`
    have hoffer : st.relax u v d h = st.offer v (some u) (st.costOf u + d) h := by
      unfold relax
      rw [if_neg (fun hc => hvc ((VertexRef.contains_iff_mem hclosedInt hv).1 hc))]
    rw [hoffer, costOf_offer_self st hv]
    exact min_le_left _ _

/-- **Leaving a closed vertex by its steps** keeps the invariant, tries them all, and keeps what
every closed vertex tried. -/
theorem ExactInv.relaxAll {u : VertexRef} {L : List (VertexRef × WithTop ℝ × WithTop ℝ)}
    (hL : next u = .ok L) :
    ∀ (L₁ : List (VertexRef × WithTop ℝ × WithTop ℝ)) {st : SearchState (WithTop ℝ)},
      (∀ s ∈ L₁, s ∈ L) → ExactInv E next H st → u ∈ st.closed →
      ExactInv E next H (st.relaxAll u L₁) ∧ Relaxed (st.relaxAll u L₁) u L₁ ∧
      ∀ x ∈ st.closed, ∀ L' : List (VertexRef × WithTop ℝ × WithTop ℝ), (∀ s ∈ L', s.1.IsInt) →
        Relaxed st x L' → Relaxed (st.relaxAll u L₁) x L'
  | [], _, _, hinv, _ => ⟨hinv, fun _ hs => absurd hs List.not_mem_nil, fun _ _ _ _ h => h⟩
  | s :: L₁, st, hsub, hinv, hu => by
    rw [relaxAll_cons]
    have hs := hsub s (List.mem_cons_self ..)
    have hsint := (hcons u (hinv.closed u hu).1 (hinv.closed u hu).2.1 L hL s hs).1
    have hu' : u ∈ (st.relax u s.1 s.2.1 s.2.2).closed := by
      rw [relax_closed]
      exact hu
    obtain ⟨hinv', hrel, hkeep⟩ := ExactInv.relaxAll hL L₁
      (fun x hx => hsub x (List.mem_cons_of_mem _ hx)) (hinv.relax hE hcons hu hL hs) hu'
    have hself := hkeep u hu' [s] (fun y hy => by rw [List.mem_singleton.1 hy]; exact hsint)
      (relaxed_relax_self hinv hu hsint s.2.1 s.2.2)
    refine ⟨hinv', fun y hy => ?_, fun x hx L' hL' hrelx => ?_⟩
    · rcases List.mem_cons.1 hy with rfl | hy
      · exact hself y (List.mem_singleton_self _)
      · exact hrel y hy
    · exact hkeep x (by rw [relax_closed]; exact hx) L' hL'
        (hrelx.relax hinv hx hL' u hsint s.2.1 s.2.2)

omit hE hcons in
/-- Dropping an entry of a vertex closed before keeps the invariant. -/
theorem ExactInv.pop (hinv : ExactInv E next H st) {k : WithTop ℝ} {t : Nat} {u : VertexRef}
    {rest : OpenQueue (WithTop ℝ)} (hq : st.queue = (k, t, u) :: rest) (hu : u ∈ st.closed) :
    ExactInv E next H { st with queue := rest } where
  sorted := by
    have hs := hinv.sorted
    rw [hq] at hs
    exact (List.pairwise_cons.1 hs).2
  queued e he := hinv.queued e (hq ▸ List.mem_cons_of_mem _ he)
  latest v hv hopen hfin := by
    obtain ⟨e, he, hev, hkey⟩ := hinv.latest v hv hopen hfin
    rw [hq] at he
    rcases List.mem_cons.1 he with rfl | he
    · exact absurd (hev ▸ hu) hopen
    · exact ⟨e, he, hev, hkey⟩
  closed := hinv.closed
  closed_nodup := hinv.closed_nodup
  optimal := hinv.optimal
  entries := hinv.entries
  traced v hv hfin := by
    obtain ⟨ws, c, hcost, hw, hlast, hdrop, hnodup, hpath⟩ := hinv.traced v hv hfin
    exact ⟨ws, c, hcost, hw, hlast, hdrop, hnodup, fun n hn => by
      rw [← hpath n hn]
      exact SearchState.pathTo_congr (by rfl) v n⟩
  iterations := hinv.iterations

/-- **Closing the vertex queued first**, when it is neither closed nor the goal mark, keeps the
invariant: it is closed at its least cost. -/
theorem ExactInv.close (hinv : ExactInv E next H st) (hexp : Expanded next st) {k : WithTop ℝ}
    {t : Nat} {u : VertexRef} {rest : OpenQueue (WithTop ℝ)} (hq : st.queue = (k, t, u) :: rest)
    (hopen : u ∉ st.closed) (hu : u ≠ VertexRef.goal) :
    ExactInv E next H
      { st with queue := rest, closed := u :: st.closed, iterations := st.iterations + 1 } := by
  obtain ⟨huint, hkfin, hkey⟩ := hinv.queued (k, t, u) (hq ▸ List.mem_cons_self ..)
  have hufin : st.costOf u ≠ ⊤ := fun htop => by
    rw [htop, WithTop.top_add, top_le_iff] at hkey
    exact hkfin hkey
  have hs := hinv.sorted
  rw [hq] at hs
  refine ⟨(List.pairwise_cons.1 hs).2, fun e he => hinv.queued e (hq ▸ List.mem_cons_of_mem _ he),
    ?_, ?_, List.nodup_cons.2 ⟨hopen, hinv.closed_nodup⟩, ?_, ?_, ?_, ?_⟩
  · intro v hv hvopen hfin
    have hvu : v ≠ u := fun h => hvopen (h ▸ List.mem_cons_self ..)
    obtain ⟨e, he, hev, hkey'⟩ := hinv.latest v hv (fun h => hvopen (List.mem_cons_of_mem _ h)) hfin
    rw [hq] at he
    rcases List.mem_cons.1 he with rfl | he
    · exact absurd hev.symm hvu
    · exact ⟨e, he, hev, hkey'⟩
  · intro x hx
    rcases List.mem_cons.1 hx with rfl | hx
    · exact ⟨huint, hu, hufin⟩
    · exact hinv.closed x hx
  · intro x hx ws c hw hlast
    rcases List.mem_cons.1 hx with rfl | hx
    · exact hinv.front_optimal hexp hE hcons hq hopen hw hlast
    · exact hinv.optimal x hx ws c hw hlast
  · intro x hx
    rcases hinv.entries x hx with h | h
    · exact .inl (List.mem_cons_of_mem _ h)
    · exact .inr h
  · intro v hv hfin
    obtain ⟨ws, c, hcost, hw, hlast, hdrop, hnodup, hpath⟩ := hinv.traced v hv hfin
    exact ⟨ws, c, hcost, hw, hlast, fun y hy => List.mem_cons_of_mem _ (hdrop y hy), hnodup,
      fun n hn => by
        rw [← hpath n hn]
        exact SearchState.pathTo_congr (by rfl) v n⟩
  · show st.iterations + 1 = (u :: st.closed).length
    rw [hinv.iterations, List.length_cons]

/-- **A round that closes a vertex and leaves it by its steps** keeps the invariant, and every
closed vertex has tried all its steps. -/
theorem ExactInv.round (hinv : ExactInv E next H st) (hexp : Expanded next st) {k : WithTop ℝ}
    {t : Nat} {u : VertexRef} {rest : OpenQueue (WithTop ℝ)} (hq : st.queue = (k, t, u) :: rest)
    (hopen : u ∉ st.closed) (hu : u ≠ VertexRef.goal)
    {L : List (VertexRef × WithTop ℝ × WithTop ℝ)} (hL : next u = .ok L) :
    ExactInv E next H
        ({ st with queue := rest, closed := u :: st.closed,
                   iterations := st.iterations + 1 }.relaxAll u L) ∧
      Expanded next
        ({ st with queue := rest, closed := u :: st.closed,
                   iterations := st.iterations + 1 }.relaxAll u L) := by
  have hclose := hinv.close hE hcons hexp hq hopen hu
  obtain ⟨hinv', hrel, hkeep⟩ :=
    ExactInv.relaxAll hE hcons hL L (fun s hs => hs) hclose (List.mem_cons_self ..)
  refine ⟨hinv', fun x hx L' hL' => ?_⟩
  rw [relaxAll_closed] at hx
  rcases List.mem_cons.1 hx with rfl | hx
  · -- the vertex just closed tried its own steps
    rw [hL] at hL'
    cases hL'
    exact hrel
  · have hint : ∀ s ∈ L', s.1.IsInt :=
      fun s hs => (hcons x (hinv.closed x hx).1 (hinv.closed x hx).2.1 L' hL' s hs).1
    exact hkeep x (List.mem_cons_of_mem _ hx) L' hint fun s hs =>
      (hexp x hx L' hL' s hs).imp (List.mem_cons_of_mem _) id

/-- **Closing the goal mark.** When the goal mark is queued first, it has been reached at the
least cost of a walk to it, and the path read back through the predecessors is a walk of that
cost. -/
theorem ExactInv.found (hinv : ExactInv E next H st) (hexp : Expanded next st) {k : WithTop ℝ}
    {t : Nat} {u : VertexRef} {rest : OpenQueue (WithTop ℝ)} (hq : st.queue = (k, t, u) :: rest)
    (hopen : u ∉ st.closed) :
    ∃ ws, ∃ c : ℝ, st.costOf u = c ∧ Walk E next ws c ∧ ws.getLast? = some u ∧
      st.pathTo u (st.iterations + 1) = ws ∧
      ∀ ws' c', Walk E next ws' c' → ws'.getLast? = some u → c ≤ c' := by
  obtain ⟨huint, hkfin, hkey⟩ := hinv.queued (k, t, u) (hq ▸ List.mem_cons_self ..)
  have hufin : st.costOf u ≠ ⊤ := fun htop => by
    rw [htop, WithTop.top_add, top_le_iff] at hkey
    exact hkfin hkey
  obtain ⟨ws, c, hcost, hw, hlast, hdrop, hnodup, hpath⟩ := hinv.traced u huint hufin
  -- the path has at most one vertex more than the closed ones
  have hlen : ws.length ≤ st.iterations + 1 + 1 := by
    have hsub : ws.dropLast.length ≤ st.closed.length :=
      ((hnodup.sublist (List.dropLast_sublist ws)).subperm hdrop).length_le
    rw [List.length_dropLast] at hsub
    rw [hinv.iterations]
    omega
  refine ⟨ws, c, hcost, hw, hlast, hpath _ hlen, fun ws' c' hw' hlast' => ?_⟩
  have h := hinv.front_optimal hexp hE hcons hq hopen hw' hlast'
  rw [hcost] at h
  exact WithTop.coe_le_coe.1 h

/-- With nothing queued, no walk reaches a vertex that is not closed: the search has closed all it
could reach. -/
theorem ExactInv.unreachable (hinv : ExactInv E next H st) (hexp : Expanded next st)
    (hempty : st.queue = []) {ws : List VertexRef} {c : ℝ}
    (hw : Walk E next ws c) {x : VertexRef} (hlast : ws.getLast? = some x) : x ∈ st.closed := by
  rcases hinv.frontier hexp hE hcons hw hlast with hx | ⟨w, hwint, hwopen, hwfin, -⟩
  · exact hx
  · obtain ⟨e, he, -⟩ := hinv.latest w hwint hwopen hwfin
    rw [hempty] at he
    exact absurd he List.not_mem_nil

end Rounds

/-- The first state of a search: the entries `E` queued in turn, each at its cost with the
estimate `H` of its vertex, with no predecessor. -/
noncomputable def seed (E : List (VertexRef × ℝ)) (H : VertexRef → ℝ) : SearchState (WithTop ℝ) :=
  E.foldl (fun st x => st.offer x.1 none (x.2 : WithTop ℝ) (H x.1 : WithTop ℝ)) {}

section Seeding

variable (E H) in
/-- A state of entries queued in turn with no predecessor: nothing closed, no predecessor, the
queue sorted with an entry for every cost recorded, and every cost recorded that of an entry. -/
structure Seeded (st : SearchState (WithTop ℝ)) : Prop where
  closed : st.closed = []
  parent : st.parent = []
  iterations : st.iterations = 0
  sorted : st.queue.Pairwise fun a b => a.1 ≤ b.1
  queued : ∀ e ∈ st.queue, e.2.2.IsInt ∧ e.1 ≠ ⊤ ∧ st.costOf e.2.2 + (H e.2.2 : WithTop ℝ) ≤ e.1
  latest : ∀ v, v.IsInt → st.costOf v ≠ ⊤ →
    ∃ e ∈ st.queue, e.2.2 = v ∧ e.1 ≤ st.costOf v + (H v : WithTop ℝ)
  recorded : ∀ v, v.IsInt → st.costOf v ≠ ⊤ → ∃ x ∈ E, x.1 = v ∧ st.costOf v = x.2

variable {st : SearchState (WithTop ℝ)} (hE : ∀ x ∈ E, x.1.IsInt)
include hE

omit hE in
theorem seeded_empty : Seeded E H ({} : SearchState (WithTop ℝ)) where
  closed := rfl
  parent := rfl
  iterations := rfl
  sorted := List.Pairwise.nil
  queued _ he := absurd he List.not_mem_nil
  latest _ _ hfin := absurd rfl hfin
  recorded _ _ hfin := absurd rfl hfin

/-- Queuing an entry keeps a seeded state seeded. -/
theorem Seeded.offer (hs : Seeded E H st) {x : VertexRef × ℝ} (hx : x ∈ E) :
    Seeded E H (st.offer x.1 none (x.2 : WithTop ℝ) (H x.1 : WithTop ℝ)) := by
  have hvint := hE x hx
  rcases offer_none_cases st x.1 (x.2 : WithTop ℝ) (H x.1 : WithTop ℝ) with heq | ⟨hlt, heq⟩
  · rw [heq]
    exact hs
  set st' := st.offer x.1 none (x.2 : WithTop ℝ) (H x.1 : WithTop ℝ) with hst'
  have hcv : st'.costOf x.1 = x.2 := by
    rw [costOf_offer_self st hvint, min_eq_left hlt.le]
  have hcx : ∀ y, y.IsInt → y ≠ x.1 → st'.costOf y = st.costOf y :=
    fun y hy hne => costOf_offer_of_ne st hvint hy (Ne.symm hne) _ _ _
  have hqueue : st'.queue = st.queue.insert (x.2 + H x.1, st.tickets + 1, x.1) := by rw [heq]
  refine ⟨by rw [heq]; exact hs.closed, by rw [heq]; exact hs.parent,
    by rw [heq]; exact hs.iterations, hqueue ▸ OpenQueue.pairwise_insert hs.sorted _, ?_, ?_, ?_⟩
  · intro e he
    rw [hqueue] at he
    rcases OpenQueue.mem_insert.1 he with rfl | he
    · exact ⟨hvint, WithTop.add_ne_top.2 ⟨WithTop.coe_ne_top, WithTop.coe_ne_top⟩, by rw [hcv]⟩
    · obtain ⟨heint, hefin, hekey⟩ := hs.queued e he
      exact ⟨heint, hefin,
        (add_le_add (costOf_offer_le st hvint heint _ _ _) le_rfl).trans hekey⟩
  · intro v hv hfin
    by_cases hvx : v = x.1
    · subst hvx
      exact ⟨_, hqueue ▸ OpenQueue.mem_insert.2 (.inl rfl), rfl, by rw [hcv]⟩
    · rw [hcx v hv hvx] at hfin ⊢
      obtain ⟨e, he, hev, hkey⟩ := hs.latest v hv hfin
      exact ⟨e, hqueue ▸ OpenQueue.mem_insert.2 (.inr he), hev, hkey⟩
  · intro v hv hfin
    by_cases hvx : v = x.1
    · subst hvx
      exact ⟨x, hx, rfl, hcv⟩
    · rw [hcx v hv hvx] at hfin ⊢
      exact hs.recorded v hv hfin

/-- Queuing entries in turn keeps a state seeded, leaves each entry's vertex at most at the
entry's cost, and raises no cost. -/
theorem Seeded.foldl :
    ∀ (l : List (VertexRef × ℝ)) {st : SearchState (WithTop ℝ)}, (∀ x ∈ l, x ∈ E) →
      Seeded E H st →
      Seeded E H (l.foldl (fun st x => st.offer x.1 none (x.2 : WithTop ℝ) (H x.1 : WithTop ℝ)) st) ∧
      (∀ x ∈ l, (l.foldl (fun st x => st.offer x.1 none (x.2 : WithTop ℝ) (H x.1 : WithTop ℝ))
        st).costOf x.1 ≤ x.2) ∧
      ∀ v, v.IsInt → (l.foldl (fun st x => st.offer x.1 none (x.2 : WithTop ℝ)
        (H x.1 : WithTop ℝ)) st).costOf v ≤ st.costOf v
  | [], _, _, hs => ⟨hs, fun _ hx => absurd hx List.not_mem_nil, fun _ _ => le_rfl⟩
  | x :: l, st, hsub, hs => by
    rw [List.foldl_cons]
    have hx := hsub x (List.mem_cons_self ..)
    obtain ⟨hs', hbound, hle⟩ := Seeded.foldl l (fun y hy => hsub y (List.mem_cons_of_mem _ hy))
      (hs.offer hE hx)
    refine ⟨hs', fun y hy => ?_, fun v hv => (hle v hv).trans (costOf_offer_le st (hE x hx) hv _ _ _)⟩
    rcases List.mem_cons.1 hy with rfl | hy
    · -- the entry queued first may only have been lowered since
      refine (hle y.1 (hE y hx)).trans ?_
      rw [costOf_offer_self st (hE y hx)]
      exact min_le_left _ _
    · exact hbound y hy

/-- **The first state of the search**, the entries queued in turn, has the invariant, and no
vertex is closed. -/
theorem seed_inv : ExactInv E next H (seed E H) ∧ Expanded next (seed E H) ∧ (seed E H).closed = [] := by
  obtain ⟨hs, hbound, -⟩ := Seeded.foldl hE E (fun x hx => hx) seeded_empty
  -- with no predecessor, the path read back to a vertex is the vertex
  have hpath : ∀ v n, (seed E H).pathTo v n = [v] := by
    intro v n
    cases n with
    | zero => rfl
    | succ n =>
      have hlook : VertexRef.lookup (seed E H).parent v = none := by
        rw [seed, hs.parent, VertexRef.lookup_nil]
      exact pathTo_succ_of_lookup_none hlook n
  have hclosed : (seed E H).closed = [] := hs.closed
  refine ⟨⟨hs.sorted, hs.queued, fun v hv _ hfin => hs.latest v hv hfin, ?_, ?_, ?_,
    fun x hx => .inr (hbound x hx), ?_, by rw [seed, hs.iterations, hs.closed]; rfl⟩, ?_, hclosed⟩
  · intro u hu
    rw [hclosed] at hu
    exact absurd hu List.not_mem_nil
  · rw [hclosed]
    exact List.nodup_nil
  · intro u hu
    rw [hclosed] at hu
    exact absurd hu List.not_mem_nil
  · intro v hv hfin
    obtain ⟨x, hx, hxv, hcost⟩ := hs.recorded v hv hfin
    refine ⟨[v], x.2, hcost, .start (hxv ▸ hx), rfl, fun y hy => absurd hy List.not_mem_nil,
      List.nodup_singleton v, fun n _ => hpath v n⟩
  · intro u hu
    rw [hclosed] at hu
    exact absurd hu List.not_mem_nil

omit hE in
/-- The first state queues one entry at most for each entry, of its vertex. -/
theorem seed_queue : (seed E H).queue.length ≤ E.length ∧
    ∀ e ∈ (seed E H).queue, ∃ x ∈ E, e.2.2 = x.1 := by
  obtain ⟨-, hlen, hmem⟩ := offer_foldl_queue
    (fun x : VertexRef × ℝ => (x.1, (x.2 : WithTop ℝ), (H x.1 : WithTop ℝ))) E {} (seed E H) rfl
  exact ⟨by simpa using hlen, fun e he => (hmem e he).resolve_left List.not_mem_nil⟩

end Seeding

section Search

variable {atLimit : Nat → Except Error Bool} (hE : ∀ x ∈ E, x.1.IsInt) (hcons : Consistent next H)
include hE hcons

/-- Where the rounds of a search from the entries end, the invariant holds, with every closed
vertex left by all its steps: at the state they stop in or, when they close the goal mark, at the
state before. -/
theorem run_ends_exact (fuel : Nat) (e : SearchEnd (WithTop ℝ))
    (h : (seed E H).run atLimit next fuel = .ok e) :
    match e with
    | .found st' u => ∃ st₀ k t rest, (ExactInv E next H st₀ ∧ Expanded next st₀) ∧
        st₀.queue = (k, t, u) :: rest ∧ st₀.closed.contains u = false ∧
        (u == VertexRef.goal) = true ∧
        st' = { st₀ with queue := rest, closed := u :: st₀.closed,
                         iterations := st₀.iterations + 1 }
    | .limit st' => ExactInv E next H st' ∧ Expanded next st'
    | .exhausted st' => ExactInv E next H st' ∧ Expanded next st' := by
  obtain ⟨hinv₀, hexp₀, -⟩ : ExactInv E next H (seed E H) ∧ Expanded next (seed E H) ∧ _ :=
    seed_inv hE
  have hends := run_ends (fun st => ExactInv E next H st ∧ Expanded next st)
    (fun st k t u rest hP hq hcont => by
      have hu : u ∈ st.closed := (VertexRef.contains_iff_mem (fun x hx => (hP.1.closed x hx).1)
        (hP.1.queued (k, t, u) (hq ▸ List.mem_cons_self ..)).1).1 hcont
      exact ⟨hP.1.pop hq hu, hP.2⟩)
    (fun st k t u rest L hP hq hopen hgoal hL => by
      have huint := (hP.1.queued (k, t, u) (hq ▸ List.mem_cons_self ..)).1
      have hu : u ∉ st.closed := fun hm => by
        rw [(VertexRef.contains_iff_mem (fun x hx => (hP.1.closed x hx).1) huint).2 hm] at hopen
        cases hopen
      have hne : u ≠ VertexRef.goal := fun heq =>
        by rw [(VertexRef.beq_iff_eq huint VertexRef.goal_isInt).2 heq] at hgoal; cases hgoal
      exact hP.1.round hE hcons hP.2 hq hu hne hL)
    fuel (seed E H) e ⟨hinv₀, hexp₀⟩ h
  cases e with
  | found st' u =>
    obtain ⟨st₀, k, t, rest, hP, hq, hopen, hgoal, -, hst'⟩ := hends
    exact ⟨st₀, k, t, rest, hP, hq, hopen, hgoal, hst'⟩
  | limit st' => exact hends.1
  | exhausted st' => exact hends

/-- **A search in exact arithmetic that closes the goal mark has found a walk of least cost.**
The goal mark is reached at the least cost of a walk of the search graph to it, and the path
read back through the predecessors is a walk of that cost. -/
theorem run_found_exact {fuel : Nat} {st : SearchState (WithTop ℝ)} {u : VertexRef}
    (h : (seed E H).run atLimit next fuel = .ok (.found st u)) :
    u = VertexRef.goal ∧ ∃ ws, ∃ c : ℝ, st.costOf u = c ∧ Walk E next ws c ∧
      ws.getLast? = some u ∧ st.pathTo u st.iterations = ws ∧
      ∀ ws' c', Walk E next ws' c' → ws'.getLast? = some u → c ≤ c' := by
  obtain ⟨st₀, k, t, rest, ⟨hinv, hexp⟩, hq, hopen, hgoal, rfl⟩ := run_ends_exact hE hcons fuel _ h
  have huint := (hinv.queued (k, t, u) (hq ▸ List.mem_cons_self ..)).1
  have hu : u ∉ st₀.closed := fun hm => by
    rw [(VertexRef.contains_iff_mem (fun x hx => (hinv.closed x hx).1) huint).2 hm] at hopen
    cases hopen
  obtain ⟨ws, c, hcost, hw, hlast, hpath, hmin⟩ := hinv.found hE hcons hexp hq hu
  refine ⟨(VertexRef.beq_iff_eq huint VertexRef.goal_isInt).1 hgoal, ws, c, hcost, hw, hlast, ?_,
    hmin⟩
  rw [← hpath]
  exact SearchState.pathTo_congr (by rfl) u _

/-- **A search in exact arithmetic that runs out of open vertices has no walk to the goal
mark.** -/
theorem run_exhausted_exact {fuel : Nat} {st : SearchState (WithTop ℝ)}
    (h : (seed E H).run atLimit next fuel = .ok (.exhausted st)) (hempty : st.queue = [])
    {ws : List VertexRef} {c : ℝ} (hw : Walk E next ws c) :
    ws.getLast? ≠ some VertexRef.goal := by
  obtain ⟨hinv, hexp⟩ := run_ends_exact hE hcons fuel _ h
  intro hlast
  exact (hinv.closed _ (hinv.unreachable hE hcons hexp hempty hw hlast)).2.1 rfl

/-- Given more rounds than the entries and `D` steps for each vertex of `V`, a search whose every
vertex that can be closed lies in `V` and lists at most `D` steps stops for want of rounds only
with nothing queued. -/
theorem run_exhausted_seed {fuel : Nat} {st : SearchState (WithTop ℝ)} (V : List VertexRef)
    (D : Nat) (hEV : ∀ x ∈ E, x.1 ∈ V ∨ x.1 = VertexRef.goal)
    (hV : ∀ u ∈ V, u.IsInt → u ≠ VertexRef.goal → ∀ L, next u = .ok L →
      L.length ≤ D ∧ ∀ s ∈ L, s.1 ∈ V ∨ s.1 = VertexRef.goal)
    (hfuel : E.length + D * V.length < fuel)
    (h : (seed E H).run atLimit next fuel = .ok (.exhausted st)) : st.queue = [] := by
  obtain ⟨-, -, hclosed⟩ : ExactInv E next H (seed E H) ∧ Expanded next (seed E H) ∧ _ :=
    seed_inv hE
  obtain ⟨hlen, hmem⟩ := seed_queue (E := E) (H := H)
  refine run_exhausted_empty V D (fun u hu huint hne L hL => ⟨(hV u hu huint hne L hL).1,
    fun s hs => ⟨(hcons u huint hne L hL s hs).1, (hV u hu huint hne L hL).2 s hs⟩⟩) fuel
    (seed E H) st
    (by rw [hclosed]; exact List.nodup_nil) (by rw [hclosed]; simp) ?_ ?_ h
  · intro e he
    obtain ⟨x, hx, hex⟩ := hmem e he
    rw [hex]
    exact ⟨hE x hx, hEV x hx⟩
  · rw [hclosed, List.length_nil, Nat.sub_zero]
    omega

end Search

end SearchState

end Exploration
