import Mathlib
import Exploration.Proofs.TreeGrowth
import Exploration.Proofs.TreePrune

/-!
# The collision update

After a map update the local planner checks the tree against the map (`updateCollision`): each
node walks the connections it made, and drops at both ends every one that is not the connection
being flown and that has a sample point the traversability test does not pass; then the nodes no
longer joined to the root are pruned, and the active connections repaired.

Seen per node, the walk is a `Trim` of the tree that keeps the connections that pass
(`dropBlocked_run`), and the walk over every node is one such `Trim` (`dropBlockedEach_all`):
a connection is dropped when its parent checks it, and a parent checks each connection it made
exactly once. With the pruning (`Linked.prune_run`) and the repair (`Symmetric.repair_run`) this
gives the whole update (`updateCollision_drops_blocked`): on a well-formed tree whose viewpoints
have finite positions, and a test that answers on every connection, the connections left all
pass, those dropped have a sample point refused, the nodes left are those still joined to the
root, the connection being flown stays held at both ends when the root is at one of them, and
the tree is well formed again (`CollisionOutcome`).
-/

namespace Exploration

/-- The traversability test of a scene, the robot where the mission says. -/
def Scene.test (sc : Scene) (m : Mission) : Vec3 → Except Error Bool :=
  sc.map.traversableActive (if sc.seesRobot then some m.pose.position else none)

/-- Whether a test passes every sample point of a connection. -/
def Link.clearUnder (f : Vec3 → Except Error Bool) (l : Link) : Bool :=
  match l.points.allM f with
  | .ok true => true
  | _ => false

/-- A test passes every point of a list exactly when it answers yes at each. -/
theorem allM_eq_ok_true_iff {f : Vec3 → Except Error Bool} :
    ∀ {l : List Vec3}, l.allM f = .ok true ↔ ∀ q ∈ l, f q = .ok true
  | [] => by simp [List.allM, pure, Except.pure]
  | q :: l => by
    cases hq : f q with
    | error e => simp [List.allM, hq, bind, Except.bind]
    | ok b =>
      cases b
      · simp [List.allM, hq, bind, Except.bind, pure, Except.pure]
      · simp [List.allM, hq, bind, Except.bind, allM_eq_ok_true_iff]

/-- A test that ends in a no answers no at some point. -/
theorem exists_of_allM_eq_ok_false {f : Vec3 → Except Error Bool} :
    ∀ {l : List Vec3}, l.allM f = .ok false → ∃ q ∈ l, f q = .ok false
  | [] => by simp [List.allM, pure, Except.pure]
  | q :: l => by
    intro h
    cases hq : f q with
    | error e => simp [List.allM, hq, bind, Except.bind] at h
    | ok b =>
      cases b
      · exact ⟨q, List.mem_cons_self .., hq⟩
      · simp only [List.allM, hq, bind, Except.bind] at h
        obtain ⟨q', hq', hf⟩ := exists_of_allM_eq_ok_false h
        exact ⟨q', List.mem_cons_of_mem _ hq', hf⟩

namespace Link

variable {f : Vec3 → Except Error Bool} {l : Link}

theorem clearUnder_iff : l.clearUnder f = true ↔ ∀ q ∈ l.points, f q = .ok true := by
  rw [← allM_eq_ok_true_iff]
  unfold clearUnder
  split <;> simp_all

theorem clearUnder_of_allM {b : Bool} (h : l.points.allM f = .ok b) : l.clearUnder f = b := by
  cases b <;> simp [clearUnder, h]

/-- A connection the test answers on and does not pass has a point the test refuses. -/
theorem exists_blocked {b : Bool} (hb : l.points.allM f = .ok b) (h : l.clearUnder f = false) :
    ∃ q ∈ l.points, f q = .ok false := by
  rw [clearUnder_of_allM hb] at h
  subst h
  exact exists_of_allM_eq_ok_false hb

end Link

namespace LocalRun

@[simp] theorem withTree_mission (r : LocalRun) (t : ViewpointTree) :
    (r.withTree t).mission = r.mission := rfl

end LocalRun

namespace ViewpointTree

/-- The dropping that `keep` does depends only on the connections held. -/
theorem Trim.congr {t t' : ViewpointTree} {k k' : Link → Bool} (h : Trim t t' k)
    (hk : ∀ id ∈ t.arena, ∀ e ∈ (t.node id).links, k e.2 = k' e.2) : Trim t t' k' := by
  refine ⟨h.arena, h.slots, h.index, h.root, h.nextNode, h.nextLink, h.fresh, fun id hid => ?_,
    h.active_int⟩
  rw [h.node id hid, List.filter_congr fun e he => hk id hid e he]

/-- A connection held by a node of a well-formed tree is made by that node exactly when the node
is its parent. -/
theorem Linked.out_iff {t : ViewpointTree} (h : Linked t) {id : Int} (hid : id ∈ t.arena)
    {e : Bool × Link} (he : e ∈ (t.node id).links) : e.1 = true ↔ e.2.parent = id := by
  have hh := h.holds id hid e he
  obtain ⟨b, l⟩ := e
  cases b
  · -- held at its target, whose other end is the parent
    have hne : farEnd (false, l) ≠ id := hh.far_ne
    simpa [farEnd] using hne
  · simpa [nearEnd] using hh.near

/-- A connection held with its parent at `o` is held by `o` as made there. -/
theorem Linked.made_at {tc : ViewpointTree} (htc : Linked tc) {id : Int} (hid : id ∈ tc.arena)
    {c : Bool × Link} (hc : c ∈ (tc.node id).links) : (true, c.2) ∈ (tc.node c.2.parent).links := by
  obtain ⟨b, l⟩ := c
  cases b
  · -- held at its target: the parent holds the mirror
    simpa [farEnd] using (htc.holds id hid _ hc).mirror
  · have hpar : l.parent = id := (htc.out_iff hid hc).1 rfl
    rw [hpar]
    exact hc

/-- A connection held at its parent as made there is held at its target the other way. -/
theorem Linked.held_at_target {T : ViewpointTree} (hT : Linked T) {c : Link}
    (hp : c.parent ∈ T.arena) (hc : (true, c) ∈ (T.node c.parent).links) :
    c.target ∈ T.arena ∧ (false, c) ∈ (T.node c.target).links := by
  have hh := hT.holds _ hp _ hc
  exact ⟨by simpa [farEnd] using hh.far_mem, by simpa [farEnd] using hh.mirror⟩

/-- Both ends of a connection with the root at one end are joined to the root. -/
theorem Linked.joined_ends {T : ViewpointTree} (hT : Linked T) {c : Link}
    (hp : c.parent ∈ T.arena) (hc : (true, c) ∈ (T.node c.parent).links)
    (hroot : (T.node c.parent).isRoot = true ∨ (T.node c.target).isRoot = true) :
    JoinedIn T (fun _ => True) c.parent ∧ JoinedIn T (fun _ => True) c.target := by
  obtain ⟨ht, hc'⟩ := hT.held_at_target hp hc
  rcases hroot with hr | hr
  · have hjp : JoinedIn T (fun _ => True) c.parent := .root hp trivial hr
    exact ⟨hjp, .step ht trivial hc' (by simpa [farEnd] using hjp)⟩
  · have hjt : JoinedIn T (fun _ => True) c.target := .root ht trivial hr
    exact ⟨.step hp trivial hc (by simpa [farEnd] using hjt), hjt⟩

end ViewpointTree

namespace LocalPlanner

open ViewpointTree

theorem clear_eq_test (sc : Scene) (r : LocalRun) : clear sc r = .ok (sc.test r.mission) r := rfl

@[simp] theorem flown_withTree (r : LocalRun) (t : ViewpointTree) (l : Link) :
    flown (r.withTree t).planner l = flown r.planner l := rfl

/-- A connection passes the check: it is the one being flown, or the test passes its points. -/
def passes (p : LocalPlanner) (f : Vec3 → Except Error Bool) (l : Link) : Bool :=
  flown p l || l.clearUnder f

/-- Whether a walk over the connections `Ls` checks a connection: `Ls` holds it as made at this
end, and it is not flown. -/
def checks (p : LocalPlanner) (Ls : List (Bool × Link)) (l : Link) : Bool :=
  Ls.any fun e => e.1 && e.2.id == l.id && !flown p e.2

/-- A connection not made at this end, or flown, is passed over. -/
theorem dropBlocked_skip (sc : Scene) (r : LocalRun) {out : Bool} {l : Link}
    (rest : List (Bool × Link)) (h : out = false ∨ flown r.planner l = true) :
    dropBlocked sc ((out, l) :: rest) r = dropBlocked sc rest r := by
  rcases h with rfl | h
  · simp [dropBlocked, bind, EStateM.bind]
  · simp [dropBlocked, h, bind, EStateM.bind]

/-- A connection made at this end and not flown is tested; one the test passes stays. -/
theorem dropBlocked_pass (sc : Scene) (r : LocalRun) {l : Link} (rest : List (Bool × Link))
    (h : flown r.planner l = false) (hA : l.points.allM (sc.test r.mission) = .ok true) :
    dropBlocked sc ((true, l) :: rest) r = dropBlocked sc rest r := by
  simp [dropBlocked, h, -clear_run, clear_eq_test, hA, lift, bind, EStateM.bind, pure, EStateM.pure]

/-- A connection made at this end and not flown is tested; one the test refuses is dropped at
both ends. -/
theorem dropBlocked_block (sc : Scene) (r : LocalRun) {l : Link} (rest : List (Bool × Link))
    (h : flown r.planner l = false) (hA : l.points.allM (sc.test r.mission) = .ok false) :
    dropBlocked sc ((true, l) :: rest) r =
      (onTree (removeLink l) >>= fun _ => dropBlocked sc rest) r := by
  simp [dropBlocked, h, -clear_run, clear_eq_test, hA, lift, bind, EStateM.bind, pure, EStateM.pure]

theorem checks_cons (p : LocalPlanner) (out : Bool) (l : Link) (rest : List (Bool × Link))
    (c : Link) :
    checks p ((out, l) :: rest) c = (out && l.id == c.id && !flown p l || checks p rest c) := by
  simp [checks]

/-- A walk over connections with other ids does not check a connection. -/
theorem checks_eq_false {p : LocalPlanner} {Ls : List (Bool × Link)} {c : Link}
    (h : ∀ e ∈ Ls, e.2.id ≠ c.id) : checks p Ls c = false := by
  simp only [checks, List.any_eq_false, Bool.and_eq_true, beq_iff_eq, Bool.not_eq_true']
  intro e he hc
  exact h e he hc.1.2

/-- **The walk over a node's connections** `Ls`, all held by node `v` with distinct ids: it tests
those made at `v` and not flown, in order, and drops at both ends each one the test refuses. It
ends with the tree that drops exactly the connections it checks and the test does not pass. -/
theorem dropBlocked_run (sc : Scene) (r₀ : LocalRun) {v : Int} :
    ∀ (Ls : List (Bool × Link)) (tc : ViewpointTree), Linked tc → v ∈ tc.arena →
      (∀ e ∈ Ls, e ∈ (tc.node v).links) → (Ls.map (·.2.id)).Nodup →
      (∀ e ∈ Ls, ∃ b, e.2.points.allM (sc.test r₀.mission) = .ok b) →
      ∃ tc', dropBlocked sc Ls (r₀.withTree tc) = .ok () (r₀.withTree tc') ∧
        Trim tc tc' fun l => !checks r₀.planner Ls l || l.clearUnder (sc.test r₀.mission)
  | [], tc, htc, _, _, _, _ =>
    ⟨tc, rfl, (Trim.refl htc.active_int).congr fun _ _ _ _ => by simp [checks]⟩
  | (out, l) :: rest, tc, htc, hv, hsub, hnd, htest => by
    have hl : (out, l) ∈ (tc.node v).links := hsub _ List.mem_cons_self
    have hrest : ∀ e ∈ rest, e ∈ (tc.node v).links := fun e he =>
      hsub e (List.mem_cons_of_mem _ he)
    have hnd' : (rest.map (·.2.id)).Nodup := (List.nodup_cons.1 hnd).2
    have hnot : ∀ e ∈ rest, e.2.id ≠ l.id := fun e he h =>
      (List.nodup_cons.1 hnd).1 (List.mem_map.2 ⟨e, he, h⟩)
    have htest' : ∀ e ∈ rest, ∃ b, e.2.points.allM (sc.test r₀.mission) = .ok b :=
      fun e he => htest e (List.mem_cons_of_mem _ he)
    -- a connection held with `l`'s id is `l`, which the rest does not check
    have hsame : ∀ id ∈ tc.arena, ∀ c ∈ (tc.node id).links, c.2.id = l.id → c.2 = l :=
      fun id hid c hc h => htc.same_id id hid v hv c hc (out, l) hl h
    have hrest_l : checks r₀.planner rest l = false := checks_eq_false hnot
    by_cases hskip : out = false ∨ flown r₀.planner l = true
    · -- passed over: the rest is walked on the same tree
      rw [dropBlocked_skip sc _ rest (by simpa using hskip)]
      obtain ⟨tc', hrun, htrim⟩ := dropBlocked_run sc r₀ rest tc htc hv hrest hnd' htest'
      refine ⟨tc', hrun, htrim.congr fun id hid c hc => ?_⟩
      by_cases hc' : c.2.id = l.id
      · rw [hsame id hid c hc hc', checks_cons, hrest_l]
        rcases hskip with rfl | hfl <;> simp_all
      · have hne : (l.id == c.2.id) = false := by simpa using Ne.symm hc'
        rw [checks_cons, hne]
        simp
    · obtain ⟨rfl, hfl⟩ : out = true ∧ flown r₀.planner l = false := by simpa using hskip
      obtain ⟨b, hA⟩ := htest _ List.mem_cons_self
      have hclear : l.clearUnder (sc.test r₀.mission) = b := Link.clearUnder_of_allM hA
      cases b with
      | true =>
        -- the test passes `l`: it stays
        rw [dropBlocked_pass sc _ rest (by simpa using hfl) (by simpa using hA)]
        obtain ⟨tc', hrun, htrim⟩ := dropBlocked_run sc r₀ rest tc htc hv hrest hnd' htest'
        refine ⟨tc', hrun, htrim.congr fun id hid c hc => ?_⟩
        by_cases hc' : c.2.id = l.id
        · rw [hsame id hid c hc hc', checks_cons, hrest_l, hclear]
          simp
        · have hne : (l.id == c.2.id) = false := by simpa using Ne.symm hc'
          rw [checks_cons, hne]
          simp
      | false =>
        -- the test refuses `l`: it is dropped at both ends before the rest is walked
        obtain ⟨tc₁, hrm, htrim₁⟩ := htc.removeLink_run hv hl
        have hrest₁ : ∀ e ∈ rest, e ∈ (tc₁.node v).links := fun e he => by
          rw [htrim₁.links hv]
          exact List.mem_filter.2 ⟨hrest e he, by simpa using hnot e he⟩
        obtain ⟨tc', hrun, htrim⟩ := dropBlocked_run sc r₀ rest tc₁ (htrim₁.linked htc)
          (htrim₁.arena ▸ hv) hrest₁ hnd' htest'
        refine ⟨tc', ?_, (htrim₁.trans htrim).congr fun id hid c hc => ?_⟩
        · rw [dropBlocked_block sc _ rest (by simpa using hfl) (by simpa using hA)]
          simp only [bind, EStateM.bind, onTree_run (r := r₀.withTree tc) rfl hrm,
            LocalRun.withTree_withTree]
          exact hrun
        · by_cases hc' : c.2.id = l.id
          · rw [hsame id hid c hc hc', checks_cons, hrest_l, hclear]
            simp [hfl]
          · have hne : (l.id == c.2.id) = false := by simpa using Ne.symm hc'
            rw [checks_cons, hne]
            simp [hc']

/-- Walking all the connections of node `o` checks exactly the connections made at `o` that are
not flown. -/
theorem checks_links {tc : ViewpointTree} (htc : Linked tc) {o : Int} (ho : o ∈ tc.arena)
    (p : LocalPlanner) {id : Int} (hid : id ∈ tc.arena) {c : Bool × Link}
    (hc : c ∈ (tc.node id).links) :
    checks p (tc.node o).links c.2 = (decide (c.2.parent = o) && !flown p c.2) := by
  -- the connections of `o` with `c`'s id are `c` itself
  have hsame : ∀ e ∈ (tc.node o).links, e.2.id = c.2.id → e.2 = c.2 :=
    fun e he h => htc.same_id o ho id hid e he c hc h
  rw [Bool.eq_iff_iff, checks, List.any_eq_true]
  simp only [Bool.and_eq_true, beq_iff_eq, Bool.not_eq_true', decide_eq_true_eq]
  constructor
  · rintro ⟨e, he, ⟨hout, hid'⟩, hfl⟩
    have heq := hsame e he hid'
    exact ⟨heq ▸ (htc.out_iff ho he).1 hout, heq ▸ hfl⟩
  · rintro ⟨hpar, hfl⟩
    exact ⟨(true, c.2), hpar ▸ htc.made_at hid hc, ⟨rfl, rfl⟩, hfl⟩

/-- The connections kept once the nodes `P` are walked: all but those made at a node of `P` that
do not pass. -/
def keepAfter (p : LocalPlanner) (f : Vec3 → Except Error Bool) (P : List Int) (l : Link) : Bool :=
  !P.contains l.parent || passes p f l

/-- **The walk over the nodes** `ids`, after the nodes `P`: each node is read afresh by its
identity and its connections walked. The tree drops, of the connections of `T`, exactly those made
at a node walked that do not pass. -/
theorem dropBlockedEach_run (sc : Scene) (r₀ : LocalRun) {T : ViewpointTree} (hT : Linked T)
    (htest : ∀ id ∈ T.arena, ∀ e ∈ (T.node id).links,
      ∃ b, e.2.points.allM (sc.test r₀.mission) = .ok b) :
    ∀ (ids P : List Int) (tc : ViewpointTree), (P ++ ids).Nodup → (∀ id ∈ ids, id ∈ T.arena) →
      Trim T tc (keepAfter r₀.planner (sc.test r₀.mission) P) →
      ∃ tc', dropBlockedEach sc (ids.map T.node) (r₀.withTree tc) = .ok () (r₀.withTree tc') ∧
        Trim T tc' (keepAfter r₀.planner (sc.test r₀.mission) (P ++ ids))
  | [], P, tc, _, _, htrim => ⟨tc, rfl, by simpa using htrim⟩
  | o :: ids, P, tc, hnd, hsub, htrim => by
    have ho : o ∈ T.arena := hsub o List.mem_cons_self
    have htc : Linked tc := htrim.linked hT
    have ho' : o ∈ tc.arena := htrim.arena ▸ ho
    have hoP : o ∉ P := fun h => (List.nodup_append.1 hnd).2.2 o h o List.mem_cons_self rfl
    -- the node is read afresh by its identity
    have hget : get (T.node o).serial tc = .ok (tc.node o) tc := by
      rw [get_run, hT.serial_eq o ho, ← htrim.slots]
      rfl
    have htest_o : ∀ e ∈ (tc.node o).links, ∃ b, e.2.points.allM (sc.test r₀.mission) = .ok b := by
      intro e he
      rw [htrim.links ho] at he
      exact htest o ho e (List.mem_of_mem_filter he)
    obtain ⟨tc₁, hrun₁, htrim₁⟩ := dropBlocked_run sc r₀ (tc.node o).links tc htc ho'
      (fun _ h => h) (htc.links_nodup_id ho') htest_o
    have hstep : Trim T tc₁ (keepAfter r₀.planner (sc.test r₀.mission) (P ++ [o])) := by
      refine (htrim.trans htrim₁).congr fun id hid e he => ?_
      by_cases hkeep : keepAfter r₀.planner (sc.test r₀.mission) P e.2 = true
      · -- `e` is still held, and the walk checks it exactly when `o` made it
        have he' : e ∈ (tc.node id).links := by
          rw [htrim.links hid]
          exact List.mem_filter.2 ⟨he, hkeep⟩
        rw [hkeep, checks_links htc ho' _ (htrim.arena ▸ hid) he']
        by_cases hpar : e.2.parent = o
        · simp [keepAfter, passes, hpar, hoP]
        · simpa [keepAfter, hpar] using hkeep
      · -- `e` was dropped already, at a node of `P`
        rw [Bool.not_eq_true] at hkeep
        simp only [keepAfter, Bool.or_eq_false_iff, Bool.not_eq_false'] at hkeep
        have hin : e.2.parent ∈ P := by simpa using hkeep.1
        simp [keepAfter, hin, hkeep.2]
    obtain ⟨tc', hrun, htrim'⟩ := dropBlockedEach_run sc r₀ hT htest ids (P ++ [o]) tc₁
      (by simpa using hnd) (fun id h => hsub id (List.mem_cons_of_mem _ h)) hstep
    refine ⟨tc', ?_, by simpa using htrim'⟩
    simp only [List.map_cons, dropBlockedEach, bind, EStateM.bind,
      onTree_run (r := r₀.withTree tc) rfl hget, LocalRun.withTree_withTree, hrun₁]
    exact hrun

/-- **The check of every connection**: the walk over all the nodes of a well-formed tree drops
exactly the connections that do not pass, at both ends. -/
theorem dropBlockedEach_all (sc : Scene) (r₀ : LocalRun) {T : ViewpointTree} (hT : Linked T)
    (htest : ∀ id ∈ T.arena, ∀ e ∈ (T.node id).links,
      ∃ b, e.2.points.allM (sc.test r₀.mission) = .ok b) :
    ∃ T₁, dropBlockedEach sc (T.arena.map T.node) (r₀.withTree T) = .ok () (r₀.withTree T₁) ∧
      Trim T T₁ (passes r₀.planner (sc.test r₀.mission)) := by
  obtain ⟨T₁, hrun, htrim⟩ := dropBlockedEach_run sc r₀ hT htest T.arena [] T
    (by simpa using hT.nodup) (fun _ h => h)
    ((Trim.refl hT.active_int).congr fun _ _ _ _ => by simp [keepAfter])
  refine ⟨T₁, hrun, htrim.congr fun id hid e he => ?_⟩
  -- every connection held is made at a node of the tree
  have hpar : e.2.parent ∈ T.arena := by
    by_cases hout : e.1 = true
    · rw [(hT.out_iff hid he).1 hout]
      exact hid
    · have hfar := (hT.holds id hid e he).far_mem
      obtain ⟨b, l⟩ := e
      simp only [Bool.not_eq_true] at hout
      subst hout
      simpa [farEnd] using hfar
  simp [keepAfter, hpar]

/-- The run of `updateCollision`: the phase noted, the connections checked, the tree pruned and
repaired, and the number pruned counted and returned. -/
theorem updateCollision_eq {sc : Scene} {r r₁ : LocalRun} {T₁ T₂ T₃ : ViewpointTree} {n m : Nat}
    (hphase : phase "update_collision" r = .ok () r₁)
    (hdrop : dropBlockedEach sc (r₁.planner.tree.arena.map r₁.planner.tree.node) r₁ =
      .ok () (r₁.withTree T₁))
    (hprune : prune T₁ = .ok n T₂) (hrepair : repair T₂ = .ok m T₃) :
    updateCollision sc r = .ok (n : Int)
      { r₁ with
        planner := { r₁.planner with
          tree := T₃
          stats := { r₁.planner.stats with prunedPoints := r₁.planner.stats.prunedPoints + n } } } := by
  simp only [updateCollision, bind, EStateM.bind, hphase, onTree_run (r := r₁) rfl (points_run _),
    LocalRun.withTree_self, hdrop, onTree_run (r := r₁.withTree T₁) rfl hprune,
    LocalRun.withTree_withTree, onTree_run (r := r₁.withTree T₂) rfl hrepair, count_run]
  rfl

/-- What the collision update leaves, `T` the tree before it, `T₁` the tree with the connections
that do not pass dropped at both ends, and `T'` the tree after it. -/
structure CollisionOutcome (p : LocalPlanner) (f : Vec3 → Except Error Bool)
    (T T₁ T' : ViewpointTree) : Prop where
  dropped : Trim T T₁ (passes p f)
  /-- The viewpoints kept, in their order, are those the connections left join to the root. -/
  sublist : T'.arena.Sublist T.arena
  mem_iff : ∀ id, id ∈ T'.arena ↔ id ∈ T.arena ∧ JoinedIn T₁ (fun _ => True) id
  links : ∀ id ∈ T'.arena, (T'.node id).links = (T.node id).links.filter (passes p f ·.2)
  /-- Every connection held, unless flown, passes the test at each of its sample points. -/
  clear : ∀ id ∈ T'.arena, ∀ e ∈ (T'.node id).links, flown p e.2 = false →
    ∀ q ∈ e.2.points, f q = .ok true
  /-- Every connection a kept viewpoint no longer holds has a sample point the test refuses. -/
  blocked : ∀ id ∈ T'.arena, ∀ e ∈ (T.node id).links, e ∉ (T'.node id).links →
    ∃ q ∈ e.2.points, f q = .ok false
  /-- The connection flown, held with the root at one end, is still held at both its ends. -/
  flown_kept : ∀ c, p.current = some c → c.parent ∈ T.arena → (true, c) ∈ (T.node c.parent).links →
    (T.node c.parent).isRoot = true ∨ (T.node c.target).isRoot = true →
    c.parent ∈ T'.arena ∧ c.target ∈ T'.arena ∧ (true, c) ∈ (T'.node c.parent).links ∧
      (false, c) ∈ (T'.node c.target).links
  wf : TreeWF T'

/-- **Collision update.** On a well-formed tree whose viewpoints have finite positions, with a
test that answers at every sample point of every connection, `updateCollision` drops at both
ends exactly the connections that are not flown and that the test does not pass, keeps exactly
the viewpoints that the connections left join to the root, and repairs the active connections,
so that the tree is well formed again; it returns the number of viewpoints dropped and adds it to
the count of pruned points. -/
theorem updateCollision_drops_blocked (sc : Scene) {r : LocalRun} (hT : TreeWF r.planner.tree)
    (hfin : ∀ id ∈ r.planner.tree.arena,
      SpatialIndex.finitePoint (r.planner.tree.node id).position.toList = true)
    (htest : ∀ id ∈ r.planner.tree.arena, ∀ e ∈ (r.planner.tree.node id).links,
      ∃ b, e.2.points.allM (sc.test r.mission) = .ok b) :
    ∃ (T₁ T' : ViewpointTree) (phases : List String),
      updateCollision sc r = .ok ((r.planner.tree.arena.length - T'.arena.length : Nat) : Int)
        { r with
          planner := { r.planner with
            tree := T'
            phases := phases
            stats := { r.planner.stats with
              prunedPoints := r.planner.stats.prunedPoints +
                ((r.planner.tree.arena.length - T'.arena.length : Nat) : Int) } } } ∧
      CollisionOutcome r.planner (sc.test r.mission) r.planner.tree T₁ T' := by
  have hphase := phase_run "update_collision" r
  set r₁ : LocalRun := { r with planner := { r.planner with
      phases := if r.planner.phases.contains "update_collision" then r.planner.phases
        else r.planner.phases ++ ["update_collision"] } } with hr₁
  set T := r.planner.tree with hTdef
  set keep := passes r.planner (sc.test r.mission) with hkeepdef
  -- the check, the pruning and the repair, one after the other
  obtain ⟨T₁, hdrop, htrim⟩ := dropBlockedEach_all sc r₁ hT.linked htest
  have hkeep : passes r₁.planner (sc.test r₁.mission) = keep := rfl
  rw [hkeep] at htrim
  have hL₁ : Linked T₁ := htrim.linked hT.linked
  have hfin₁ : ∀ id ∈ T₁.arena, JoinedIn T₁ (fun _ => True) id →
      SpatialIndex.finitePoint (T₁.node id).position.toList = true := by
    intro id hid _
    rw [htrim.arena] at hid
    rw [htrim.node id hid]
    exact hfin id hid
  obtain ⟨T₂, hprune, hkept, hL₂, hO₂, hI₂, hJ₂⟩ := hL₁.prune_run (htrim.oneRoot hT.oneRoot) hfin₁
  obtain ⟨m, T₃, hrepair, htrim₃, hreach⟩ := hL₂.symmetric.repair_run hJ₂
  have hrun := updateCollision_eq hphase hdrop hprune hrepair
  -- the nodes kept, and their connections
  have harena : ∀ id, id ∈ T₃.arena ↔ id ∈ T.arena ∧ JoinedIn T₁ (fun _ => True) id := by
    intro id
    rw [htrim₃.arena, hkept.mem_iff, htrim.arena]
  have hlinks : ∀ id ∈ T₃.arena, (T₃.node id).links = (T.node id).links.filter (keep ·.2) := by
    intro id hid
    have hid₀ := ((harena id).1 hid).1
    rw [htrim₃.arena] at hid
    rw [htrim₃.links hid, hkept.node id hid, ← htrim.links hid₀]
    simp
  refine ⟨T₁, T₃, r₁.planner.phases, ?_, htrim, ?_, harena, hlinks, ?_, ?_, ?_,
    ⟨Trim.linked hL₂ htrim₃, Trim.oneRoot hO₂ htrim₃, Trim.indexed hI₂ htrim₃, hreach⟩⟩
  · rw [hrun, htrim.arena, ← htrim₃.arena]
  · rw [htrim₃.arena, ← htrim.arena]
    exact hkept.sublist
  · -- a connection held and not flown passes the test
    intro id hid e he hfl q hq
    rw [hlinks id hid] at he
    have hpass := (List.mem_filter.1 he).2
    simp only [keep, passes, hfl, Bool.false_or] at hpass
    exact Link.clearUnder_iff.1 hpass q hq
  · -- a connection no longer held did not pass, and the test answered on it
    intro id hid e he hnot
    have hpass : keep e.2 = false := by
      by_contra h
      exact hnot ((hlinks id hid).symm ▸ List.mem_filter.2 ⟨he, by simpa using h⟩)
    simp only [keep, passes, Bool.or_eq_false_iff] at hpass
    obtain ⟨b, hb⟩ := htest id ((harena id).1 hid).1 e he
    exact Link.exists_blocked hb hpass.2
  · -- the connection flown passes, so its ends stay joined to the root
    intro c hcur hp hc hroot
    have hpass : keep c = true := by simp [keep, passes, flown, hcur]
    obtain ⟨ht, hc'⟩ := hT.linked.held_at_target hp hc
    have hp₁ : c.parent ∈ T₁.arena := htrim.arena ▸ hp
    have hc₁ : (true, c) ∈ (T₁.node c.parent).links := by
      rw [htrim.links hp]
      exact List.mem_filter.2 ⟨hc, hpass⟩
    have hroot₁ : (T₁.node c.parent).isRoot = true ∨ (T₁.node c.target).isRoot = true := by
      rw [htrim.node _ hp, htrim.node _ ht]
      exact hroot
    obtain ⟨hjp, hjt⟩ := hL₁.joined_ends hp₁ hc₁ hroot₁
    have hp₃ : c.parent ∈ T₃.arena := (harena _).2 ⟨hp, hjp⟩
    have ht₃ : c.target ∈ T₃.arena := (harena _).2 ⟨ht, hjt⟩
    refine ⟨hp₃, ht₃, ?_, ?_⟩
    · rw [hlinks _ hp₃]
      exact List.mem_filter.2 ⟨hc, hpass⟩
    · rw [hlinks _ ht₃]
      exact List.mem_filter.2 ⟨hc', hpass⟩

/-- The planner on `leafTree`, a root and one viewpoint below it, whose connection has no sample
point left to block: the collision update keeps both. -/
theorem collision_on_leaf :
    TreeWF leafTreeRun.planner.tree ∧
    (∀ id ∈ leafTreeRun.planner.tree.arena,
      SpatialIndex.finitePoint (leafTreeRun.planner.tree.node id).position.toList = true) ∧
    (∀ id ∈ leafTreeRun.planner.tree.arena, ∀ e ∈ (leafTreeRun.planner.tree.node id).links,
      ∃ b, e.2.points.allM ((default : Scene).test leafTreeRun.mission) = .ok b) ∧
    ∃ (T₁ T' : ViewpointTree) (phases : List String),
      updateCollision default leafTreeRun =
        .ok ((leafTreeRun.planner.tree.arena.length - T'.arena.length : Nat) : Int)
        { leafTreeRun with
          planner := { leafTreeRun.planner with
            tree := T'
            phases := phases
            stats := { leafTreeRun.planner.stats with
              prunedPoints := leafTreeRun.planner.stats.prunedPoints +
                ((leafTreeRun.planner.tree.arena.length - T'.arena.length : Nat) : Int) } } } ∧
      CollisionOutcome leafTreeRun.planner ((default : Scene).test leafTreeRun.mission)
        leafTreeRun.planner.tree T₁ T' := by
  have hwf : TreeWF leafTreeRun.planner.tree := leafTree_wf
  have hmem : ∀ id, id ∈ leafTreeRun.planner.tree.arena ↔ id = 0 ∨ id = 1 := by
    simp [leafTreeRun, leafTree, rootAndLeaf]
  have h0 : leafTreeRun.planner.tree.node 0 = leafRoot := by
    simp [leafTreeRun, node, leafTree, rootAndLeaf, Std.HashMap.getD_insert]
  have h1 : leafTreeRun.planner.tree.node 1 = leaf := by
    simp [leafTreeRun, node, leafTree, rootAndLeaf]
  have hfin : ∀ id ∈ leafTreeRun.planner.tree.arena,
      SpatialIndex.finitePoint (leafTreeRun.planner.tree.node id).position.toList = true := by
    intro id hid
    rcases (hmem id).1 hid with rfl | rfl
    · rw [h0]; rfl
    · rw [h1]; rfl
  have htest : ∀ id ∈ leafTreeRun.planner.tree.arena, ∀ e ∈ (leafTreeRun.planner.tree.node id).links,
      ∃ b, e.2.points.allM ((default : Scene).test leafTreeRun.mission) = .ok b := by
    intro id hid e he
    -- the one connection has no sample point
    have hpts : e.2.points = [] := by
      rcases (hmem id).1 hid with rfl | rfl
      · rw [h0] at he
        simp only [leafRoot, List.mem_singleton] at he
        rw [he]; rfl
      · rw [h1] at he
        simp only [leaf, List.mem_singleton] at he
        rw [he]; rfl
    exact ⟨true, by rw [hpts]; rfl⟩
  exact ⟨hwf, hfin, htest, updateCollision_drops_blocked default hwf hfin htest⟩

end LocalPlanner

end Exploration
