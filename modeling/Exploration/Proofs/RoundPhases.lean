import Mathlib
import Exploration.Proofs.TreeGraft
import Exploration.Proofs.Collision

/-!
# The phases of a planning round keep the tree well formed

A planning round (`LocalPlanner.step`) resets a planner not yet set up, judges the gains afresh
when asked to, expands the tree, and at the target drops the connections no longer traversable,
prunes, repairs and moves the root to its best child. Each phase that returns takes a planner set
up with a well-formed tree (`Started`) to another one:

* a reset leaves a tree of one node, the root (`TreeWF.single`);
* judging a gain changes that gain alone (`TreeWF.setGain`);
* an expansion grafts one node onto the tree or leaves it as it was (`expand_keeps_wf`);
* the collision update trims connections at both ends (`Trim`), the pruning keeps the nodes still
  joined to the root, and the repair gives each of them a chain to the root;
* the selection rewires, which keeps the connections and the root flags, and moves the root to a
  neighbour of the old one (`TreeWF.moveRoot`).

The phases are read off runs that return, `x r = .ok a r'`: a run that fails keeps what it did
before it failed, and nothing is said of it.

Main statements: `resetAt_started`, `updateGains_started`, `expand_started`,
`updateCollision_started` and `selectNext_started`.
-/

namespace Exploration

namespace ViewpointTree

/-! ## Trees the phases leave -/

/-- A tree of one node, `0`, recorded and flagged as the root and holding no connection, is well
formed when its index holds just that node. -/
theorem TreeWF.single {T : ViewpointTree} {k : Nat} {p : Pose} (harena : T.arena = [0])
    (hslots : T.slots = (∅ : Std.HashMap Int Nat).insert 0 k) (hroot : T.root = some k)
    (hfresh : k < T.fresh) (hnext : 0 < T.nextNode)
    (hobj : T.objects.getD k default = { serial := k, id := 0, pose := p, isRoot := true })
    (hwf : T.index.Wf)
    (hentries : T.index.entries = [(0, (T.objects.getD k default).position.toList)]) :
    TreeWF T := by
  have hnode : T.node 0 = { serial := k, id := 0, pose := p, isRoot := true } := by
    simp [node, hslots, hobj]
  -- every statement about the nodes is one about node `0`
  have hall : ∀ {P : Int → Prop}, P 0 → ∀ id ∈ T.arena, P id := fun h0 id hid => by
    rw [harena, List.mem_singleton] at hid
    exact hid ▸ h0
  have hcontains : ∀ id, T.slots.contains id = true ↔ id ∈ T.arena := fun id => by
    rw [hslots, harena, Std.HashMap.contains_insert, Std.HashMap.contains_empty, Bool.or_false,
      beq_iff_eq, List.mem_singleton, eq_comm]
  refine ⟨⟨by simp [harena], hcontains, hall (by simp [hnode, hslots]), hall (by simp [hnode]),
      hall (by simpa [hslots] using hfresh), hall ⟨le_rfl, hnext⟩, hall ⟨-1, by rw [hnode]⟩,
      hall (by simp [hnode]), hall (by simp [hnode]), hall (by simp [hnode])⟩,
    ⟨0, by simp [harena], by simp [hroot, hslots], hall (by simp [hnode])⟩,
    ⟨hwf, by simp [hentries, harena, hnode, hobj]⟩,
    hall ⟨0, .root (by simp [harena]) trivial (by simp [hnode])⟩⟩

/-- A reset that returns leaves a tree of one node, the root, and an index holding just it. -/
theorem reset_wf {t t' : ViewpointTree} {origin : Pose} {s : Nat} (h : reset origin t = .ok s t') :
    TreeWF t' := by
  -- the reset run to its end: all that can fail is the insertion into the emptied index
  simp [reset, bind, EStateM.bind, modify, modifyGet, MonadStateOf.modifyGet, EStateM.modifyGet,
    addPoint, ensureId, MonadState.get, getThe, MonadStateOf.get, EStateM.get, set, EStateM.set,
    pure, EStateM.pure] at h
  cases hi : (t.index.clear.insert 0
      ({ serial := t.fresh, id := 0, pose := origin, isRoot := true } : Viewpoint).position.toList).2 with
  | some e => simp [hi, throw, throwThe, MonadExceptOf.throw, EStateM.throw] at h
  | none =>
    simp only [hi, EStateM.pure, EStateM.Result.ok.injEq] at h
    obtain ⟨-, rfl⟩ := h
    obtain ⟨hwf, hentries⟩ := SpatialIndex.insert_spec (SpatialIndex.clear_wf _) (Prod.ext rfl hi)
    exact TreeWF.single (p := origin) rfl rfl rfl (by simp) (by simp) (by simp) hwf
      (by simpa using hentries)

/-- Changing the gain of a node keeps a well-formed tree well formed. -/
theorem TreeWF.setGain {t : ViewpointTree} (hw : TreeWF t) {u : Int} (hu : u ∈ t.arena) (g : Float) :
    TreeWF (t.setNode u { t.node u with gain := g }) := by
  have hs := hw.linked.stored
  refine hw.of_sameLinks (hs.sameLinks_setNode hu ⟨rfl, rfl, rfl, rfl, rfl⟩) fun id hid => ?_
  rw [hs.node_setNode hu hid]
  split
  · subst id
    rfl
  · rfl

/-- A pruning that returns leaves a linked tree with one root, its index right, and every node
joined to the root: had a node kept had no finite position, the pruning would have failed. -/
theorem Linked.prune_ok {t t' : ViewpointTree} (h : Linked t) (hO : OneRoot t) {n : Nat}
    (hrun : prune t = .ok n t') :
    Kept t t' (JoinedIn t fun _ => True) ∧ Linked t' ∧ OneRoot t' ∧ Indexed t' ∧
      ∀ id ∈ t'.arena, JoinedIn t' (fun _ => True) id := by
  by_cases hfin : ∀ id ∈ t.arena, JoinedIn t (fun _ => True) id →
      SpatialIndex.finitePoint (t.node id).position.toList = true
  · obtain ⟨t₂, hrun₂, hK, hL, hO', hI, hJ⟩ := h.prune_run hO hfin
    rw [hrun₂, EStateM.Result.ok.injEq] at hrun
    obtain ⟨-, rfl⟩ := hrun
    exact ⟨hK, hL, hO', hI, hJ⟩
  · push Not at hfin
    obtain ⟨id, hid, hj, hf⟩ := hfin
    obtain ⟨e, t₂, herr⟩ := h.prune_run_error ⟨id, hid, hj, by simpa using hf⟩
    rw [herr] at hrun
    cases hrun

/-- Reading a neighbour that returns reads the node at the other end of a connection held. -/
theorem neighbor_ok {t t' : ViewpointTree} {v w : Viewpoint} {i : Nat}
    (h : neighbor v i t = .ok w t') :
    t' = t ∧ ∃ e, v.links[i]? = some e ∧ t.slots.contains (farEnd e) = true ∧
      w = t.node (farEnd e) := by
  unfold neighbor at h
  rw [Viewpoint.connectedId?_eq] at h
  cases he : v.links[i]? with
  | none => simp [he, throw, throwThe, MonadExceptOf.throw, EStateM.throw] at h
  | some e =>
    simp only [he, Option.map_some] at h
    obtain ⟨rfl, hc, rfl⟩ := point_eq_ok h
    exact ⟨rfl, e, rfl, hc, rfl⟩

end ViewpointTree

namespace LocalPlanner

open ViewpointTree

/-- A computation on the tree that returns from the planner's tree returns the same from the
planner, which is left holding the tree the computation left. -/
theorem onTree_ok_eq {α : Type} {act : TreeM α} {r r' : LocalRun} {x y : α} {T' : ViewpointTree}
    (h : onTree act r = .ok y r') (hrun : act r.planner.tree = .ok x T') :
    y = x ∧ r' = r.withTree T' := by
  rw [onTree_run rfl hrun] at h
  exact ⟨(EStateM.Result.ok.inj h).1.symm, (EStateM.Result.ok.inj h).2.symm⟩

/-- A planner set up, with a well-formed tree. -/
structure Started (r : LocalRun) : Prop where
  initialized : r.planner.initialized = true
  wf : TreeWF r.planner.tree

/-- Whether a planner is started reads its flag and its tree alone. -/
theorem Started.congr {r r' : LocalRun} (hS : Started r)
    (hi : r'.planner.initialized = r.planner.initialized) (ht : r'.planner.tree = r.planner.tree) :
    Started r' :=
  ⟨hi.trans hS.initialized, ht ▸ hS.wf⟩

/-! ## Reset and gains -/

/-- A reset that returns sets the planner up on a tree of one node. -/
theorem resetAt_started {origin : Pose} {r r' : LocalRun} (h : resetAt origin r = .ok () r') :
    Started r' := by
  unfold resetAt at h
  rw [run_bind_eq_ok] at h
  obtain ⟨s, r₁, hres, h⟩ := h
  obtain ⟨t₁, hres', rfl⟩ := onTree_eq_ok.1 hres
  rw [alter_run] at h
  obtain ⟨-, rfl⟩ := EStateM.Result.ok.inj h
  exact ⟨rfl, reset_wf hres'⟩

/-- Judging the gain of a node, or setting it to zero, changes that gain alone. -/
theorem regain_run {T : ViewpointTree} (hT : Stored T) {u : Int} (hu : u ∈ T.arena)
    {r r' : LocalRun} (hr : r.planner.tree = T) (sc : Scene)
    (h : onTree (update (T.node u).serial fun v => { v with gain := 0.0 }) r = .ok () r' ∨
      evaluate sc (T.node u).serial r = .ok () r') :
    ∃ g, r' = r.withTree (T.setNode u { T.node u with gain := g }) := by
  have hs : (T.node u).serial = T.slots.getD u 0 := hT.serial_eq u hu
  rcases h with h | h
  · refine ⟨0.0, ?_⟩
    rw [hs, onTree_run hr (hT.update_node_run hu _ rfl)] at h
    exact (EStateM.Result.ok.inj h).2.symm
  · obtain ⟨g, rfl⟩ := evaluate_run h
    subst hr
    refine ⟨g, ?_⟩
    have hobj : r.planner.tree.objects.getD (r.planner.tree.node u).serial default =
        r.planner.tree.node u := by
      rw [hs]
      rfl
    rw [hobj, hs]
    rfl

/-- **Judging the gains afresh** of viewpoints of the tree, taken by identity, changes gains
alone: a well-formed tree stays well formed, in the same shape and with the same values. -/
theorem evaluateEach_ok (sc : Scene) : ∀ (vs : List Viewpoint) (r r' : LocalRun),
    TreeWF r.planner.tree →
    (∀ v ∈ vs, ∃ u ∈ r.planner.tree.arena, v.serial = r.planner.tree.slots.getD u 0) →
    evaluateEach sc vs r = .ok () r' →
    ∃ T, r' = r.withTree T ∧ TreeWF T ∧ SameLinks r.planner.tree T ∧
      ∀ id ∈ r.planner.tree.arena, (T.node id).value = (r.planner.tree.node id).value
  | [], r, r', hw, _, h => by
    simp only [evaluateEach, pure, EStateM.pure, EStateM.Result.ok.injEq] at h
    exact ⟨r.planner.tree, by rw [← h.2, LocalRun.withTree_self], hw, .refl _, fun _ _ => rfl⟩
  | v :: vs, r, r', hw, hvs, h => by
    obtain ⟨u, hu, hv⟩ := hvs v List.mem_cons_self
    have hT := hw.linked.stored
    -- the viewpoint is read afresh: it is node `u`
    have hget : get v.serial r.planner.tree = .ok (r.planner.tree.node u) r.planner.tree := by
      rw [get_run, hv]
      rfl
    unfold evaluateEach at h
    replace h := run_bind_ok_of (onTree_read rfl hget) h
    replace h := run_bind_ok_of (planner_run _) h
    rw [run_bind_eq_ok] at h
    obtain ⟨o, r₃, ho, h⟩ := h
    obtain ⟨-, hr₃⟩ := lift_eq_ok.1 ho
    rw [hr₃] at h
    -- its gain is judged afresh, or set to zero while its connection is flown
    obtain ⟨_, r₄, h₄, h⟩ : ∃ x r₄, (onTree (update (r.planner.tree.node u).serial
        fun v => { v with gain := 0.0 }) r = .ok x r₄ ∨
        evaluate sc (r.planner.tree.node u).serial r = .ok x r₄) ∧
        evaluateEach sc vs r₄ = .ok () r' := by
      rcases o with _ | l
      · obtain ⟨x, r₄, h₄, h⟩ := run_bind_eq_ok.1 h
        exact ⟨x, r₄, .inr h₄, h⟩
      · dsimp only at h
        split at h
        · obtain ⟨x, r₄, h₄, h⟩ := run_bind_eq_ok.1 h
          exact ⟨x, r₄, .inl h₄, h⟩
        · obtain ⟨x, r₄, h₄, h⟩ := run_bind_eq_ok.1 h
          exact ⟨x, r₄, .inr h₄, h⟩
    obtain ⟨g, rfl⟩ := regain_run hT hu rfl sc h₄
    -- the rest is judged on the tree with that gain changed, in the same shape
    have hsame₁ : SameLinks r.planner.tree
        (r.planner.tree.setNode u { r.planner.tree.node u with gain := g }) :=
      hT.sameLinks_setNode hu ⟨rfl, rfl, rfl, rfl, rfl⟩
    obtain ⟨T, rfl, hT', hsame, hval⟩ := evaluateEach_ok sc vs _ r' (hw.setGain hu g)
      (fun x hx => by simpa using hvs x (List.mem_cons_of_mem _ hx)) h
    refine ⟨T, by rw [LocalRun.withTree_withTree], hT', hsame₁.trans (by simpa using hsame),
      fun id hid => ?_⟩
    rw [hval id (by simpa using hid), LocalRun.withTree_tree, hT.node_setNode hu hid]
    split
    · subst id
      rfl
    · rfl

/-- **Judging every gain afresh**, when it returns, changes the phases and the gains alone: the
tree stays well formed, in the same shape and with the same values. -/
theorem updateGains_ok (sc : Scene) {r r' : LocalRun} (hS : Started r)
    (h : updateGains sc r = .ok () r') :
    ∃ T, r' = { r with planner := { r.planner with tree := T, phases := r'.planner.phases } } ∧
      TreeWF T ∧ SameLinks r.planner.tree T ∧
      ∀ id ∈ r.planner.tree.arena, (T.node id).value = (r.planner.tree.node id).value := by
  unfold updateGains at h
  replace h := run_bind_ok_of (phase_run _ _) h
  replace h := run_bind_ok_of (onTree_read rfl (points_run _)) h
  have hvs : ∀ v ∈ r.planner.tree.arena.map r.planner.tree.node,
      ∃ u ∈ r.planner.tree.arena, v.serial = r.planner.tree.slots.getD u 0 := by
    intro v hv
    obtain ⟨u, hu, rfl⟩ := List.mem_map.1 hv
    exact ⟨u, hu, hS.wf.linked.serial_eq u hu⟩
  obtain ⟨T, rfl, hT, hsame, hval⟩ := evaluateEach_ok sc _ _ r' (by exact hS.wf) (by exact hvs) h
  exact ⟨T, rfl, hT, hsame, hval⟩

/-- Judging every gain afresh keeps the planner started. -/
theorem updateGains_started (sc : Scene) {r r' : LocalRun} (hS : Started r)
    (h : updateGains sc r = .ok () r') : Started r' := by
  obtain ⟨T, hr', hT, -, -⟩ := updateGains_ok sc hS h
  refine ⟨?_, ?_⟩
  · rw [hr']
    exact hS.initialized
  · rw [hr']
    exact hT

/-! ## Expansion and collision -/

/-- An expansion that returns keeps the planner started. -/
theorem expand_started (sc : Scene) {r r' : LocalRun} {b : Bool} (hS : Started r)
    (h : expand sc r = .ok b r') : Started r' := by
  have hE : Expansion r r' := (expand_grafts sc hS.wf.linked.ahead h).1
  refine ⟨?_, expand_keeps_wf sc hS.wf h⟩
  rw [hE]
  exact hS.initialized

/-- The walk over a node's connections, when it returns, drops some of them at both ends, never
the one flown. -/
theorem dropBlocked_ok (sc : Scene) {v : Int} :
    ∀ (Ls : List (Bool × Link)) (tc : ViewpointTree) (r r' : LocalRun), r.planner.tree = tc →
      Linked tc → v ∈ tc.arena → (∀ e ∈ Ls, e ∈ (tc.node v).links) → (Ls.map (·.2.id)).Nodup →
      dropBlocked sc Ls r = .ok () r' → ∃ tc' keep, r' = r.withTree tc' ∧ Trim tc tc' keep ∧
        ∀ id ∈ tc.arena, ∀ e ∈ (tc.node id).links, flown r.planner e.2 = true → keep e.2 = true
  | [], tc, r, r', hr, htc, _, _, _, h => by
    simp only [dropBlocked, pure, EStateM.pure, EStateM.Result.ok.injEq] at h
    exact ⟨tc, fun _ => true, by rw [← h.2, ← hr, LocalRun.withTree_self], Trim.refl htc.active_int,
      fun _ _ _ _ _ => rfl⟩
  | (out, l) :: rest, tc, r, r', hr, htc, hv, hsub, hnd, h => by
    have hl : (out, l) ∈ (tc.node v).links := hsub _ List.mem_cons_self
    have hrest : ∀ e ∈ rest, e ∈ (tc.node v).links := fun e he =>
      hsub e (List.mem_cons_of_mem _ he)
    have hnd' : (rest.map (·.2.id)).Nodup := (List.nodup_cons.1 hnd).2
    have hnot : ∀ e ∈ rest, e.2.id ≠ l.id := fun e he h =>
      (List.nodup_cons.1 hnd).1 (List.mem_map.2 ⟨e, he, h⟩)
    by_cases hskip : out = false ∨ flown r.planner l = true
    · -- passed over
      rw [dropBlocked_skip sc _ rest hskip] at h
      exact dropBlocked_ok sc rest tc r r' hr htc hv hrest hnd' h
    · obtain ⟨rfl, hfl⟩ : out = true ∧ flown r.planner l = false := by simpa using hskip
      cases hA : l.points.allM (sc.test r.mission) with
      | error e =>
        -- the test fails, and the walk with it
        simp [dropBlocked, hfl, -clear_run, clear_eq_test, hA, lift, throw, throwThe,
          MonadExceptOf.throw, EStateM.throw, bind, EStateM.bind] at h
      | ok b =>
        cases b with
        | true =>
          rw [dropBlocked_pass sc _ rest hfl hA] at h
          exact dropBlocked_ok sc rest tc r r' hr htc hv hrest hnd' h
        | false =>
          -- refused: dropped at both ends before the rest is walked
          rw [dropBlocked_block sc _ rest hfl hA] at h
          obtain ⟨tc₁, hrm, htrim₁⟩ := htc.removeLink_run hv hl
          have hrest₁ : ∀ e ∈ rest, e ∈ (tc₁.node v).links := fun e he => by
            rw [htrim₁.links hv]
            exact List.mem_filter.2 ⟨hrest e he, by simpa using hnot e he⟩
          replace h := run_bind_ok_of (onTree_run hr hrm) h
          obtain ⟨tc', keep, rfl, htrim, hflown⟩ := dropBlocked_ok sc rest tc₁ _ r' rfl
            (htrim₁.linked htc) (htrim₁.arena ▸ hv) hrest₁ hnd' h
          refine ⟨tc', _, rfl, htrim₁.trans htrim, fun id hid e he hfe => ?_⟩
          -- a connection flown is not `l`, which is not, so it has another id and stays
          have hid' : e.2.id ≠ l.id := fun hsame => by
            rw [htc.same_id id hid v hv e he (true, l) hl hsame] at hfe
            rw [hfe] at hfl
            cases hfl
          have hkeep₁ : (e.2.id != l.id) = true := by simpa using hid'
          have he₁ : e ∈ (tc₁.node id).links := by
            rw [htrim₁.links hid]
            exact List.mem_filter.2 ⟨he, hkeep₁⟩
          rw [hkeep₁, hflown id (htrim₁.arena ▸ hid) e he₁ (by simpa using hfe)]
          rfl

/-- The walk over the nodes `ids` of `T`, each read afresh by its identity, when it returns,
drops some connections of `T` at both ends, never the one flown. -/
theorem dropBlockedEach_ok (sc : Scene) {T : ViewpointTree} (hT : Linked T) :
    ∀ (ids : List Int) (tc : ViewpointTree) (keep : Link → Bool) (r r' : LocalRun),
      r.planner.tree = tc → (∀ id ∈ ids, id ∈ T.arena) → Trim T tc keep →
      (∀ id ∈ T.arena, ∀ e ∈ (T.node id).links, flown r.planner e.2 = true → keep e.2 = true) →
      dropBlockedEach sc (ids.map T.node) r = .ok () r' →
      ∃ tc' keep', r' = r.withTree tc' ∧ Trim T tc' keep' ∧
        ∀ id ∈ T.arena, ∀ e ∈ (T.node id).links, flown r.planner e.2 = true → keep' e.2 = true
  | [], tc, keep, r, r', hr, _, htrim, hflown, h => by
    simp only [List.map_nil, dropBlockedEach, pure, EStateM.pure, EStateM.Result.ok.injEq] at h
    exact ⟨tc, keep, by rw [← h.2, ← hr, LocalRun.withTree_self], htrim, hflown⟩
  | o :: ids, tc, keep, r, r', hr, hsub, htrim, hflown, h => by
    have ho : o ∈ T.arena := hsub o List.mem_cons_self
    have htc : Linked tc := htrim.linked hT
    have ho' : o ∈ tc.arena := htrim.arena ▸ ho
    -- the node is read afresh by its identity
    have hget : get (T.node o).serial tc = .ok (tc.node o) tc := by
      rw [get_run, hT.serial_eq o ho, ← htrim.slots]
      rfl
    unfold dropBlockedEach at h
    replace h := run_bind_ok_of (onTree_read hr hget) h
    rw [run_bind_eq_ok] at h
    obtain ⟨_, r₁, hd, h⟩ := h
    obtain ⟨tc₁, k₁, rfl, htrim₁, hflown₁⟩ := dropBlocked_ok sc _ tc r r₁ hr htc ho' (fun _ h => h)
      (htc.links_nodup_id ho') hd
    -- a connection flown is kept so far, so it is still held and kept again
    have hflown' : ∀ id ∈ T.arena, ∀ e ∈ (T.node id).links, flown r.planner e.2 = true →
        (keep e.2 && k₁ e.2) = true := by
      intro id hid e he hfe
      have hk := hflown id hid e he hfe
      have he' : e ∈ (tc.node id).links := by
        rw [htrim.links hid]
        exact List.mem_filter.2 ⟨he, hk⟩
      rw [hk, hflown₁ id (htrim.arena ▸ hid) e he' hfe]
      rfl
    obtain ⟨tc', keep', rfl, htrim', hflown''⟩ := dropBlockedEach_ok sc hT ids tc₁ _ _ r' rfl
      (fun id h => hsub id (List.mem_cons_of_mem _ h)) (htrim.trans htrim₁) (by simpa using hflown') h
    exact ⟨tc', keep', rfl, htrim', by simpa using hflown''⟩

/-- **The collision update**, when it returns, changes the tree, the phases and the counts alone:
it drops connections at both ends, never the one flown, then keeps the nodes still joined to the
root, and repairs their active connections, which leaves a well-formed tree. -/
theorem updateCollision_ok (sc : Scene) {r r' : LocalRun} {n : Int} (hS : Started r)
    (h : updateCollision sc r = .ok n r') :
    ∃ T₁ keep T₂, Trim r.planner.tree T₁ keep ∧
      (∀ id ∈ r.planner.tree.arena, ∀ e ∈ (r.planner.tree.node id).links,
        flown r.planner e.2 = true → keep e.2 = true) ∧
      Kept T₁ T₂ (JoinedIn T₁ fun _ => True) ∧ Trim T₂ r'.planner.tree (fun _ => true) ∧
      TreeWF r'.planner.tree ∧
      r' = { r with planner := { r.planner with
        tree := r'.planner.tree, phases := r'.planner.phases, stats := r'.planner.stats } } := by
  have hw := hS.wf
  unfold updateCollision at h
  replace h := run_bind_ok_of (phase_run _ _) h
  replace h := run_bind_ok_of (onTree_read rfl (points_run _)) h
  rw [run_bind_eq_ok] at h
  obtain ⟨_, r₁, hdrop, h⟩ := h
  obtain ⟨tc, keep, rfl, htrim, hflown⟩ := dropBlockedEach_ok sc hw.linked _ _ _ _ _ (by rfl)
    (fun _ h => h) (by exact Trim.refl hw.linked.active_int) (fun _ _ _ _ _ => rfl) hdrop
  rw [run_bind_eq_ok] at h
  obtain ⟨pruned, r₂, hpr, h⟩ := h
  obtain ⟨t₂, hpr', rfl⟩ := onTree_eq_ok.1 hpr
  obtain ⟨hK, hL, hO, hI, hJ⟩ := (htrim.linked hw.linked).prune_ok (htrim.oneRoot hw.oneRoot) hpr'
  rw [run_bind_eq_ok] at h
  obtain ⟨_, r₃, hrep, h⟩ := h
  obtain ⟨m, t', hrun, htrim', hreach⟩ := hL.symmetric.repair_run hJ
  obtain ⟨-, rfl⟩ := onTree_ok_eq hrep hrun
  replace h := run_bind_ok_of (count_run _ _) h
  obtain ⟨-, rfl⟩ := EStateM.Result.ok.inj h
  exact ⟨tc, keep, t₂, htrim, hflown, hK, htrim',
    ⟨htrim'.linked hL, htrim'.oneRoot hO, htrim'.indexed hI, hreach⟩, rfl⟩

/-- The collision update that returns keeps the planner started: the connections dropped leave a
linked tree with one root, the pruning keeps the nodes still joined to the root, and the repair
gives each of them a chain to the root. -/
theorem updateCollision_started (sc : Scene) {r r' : LocalRun} {n : Int} (hS : Started r)
    (h : updateCollision sc r = .ok n r') : Started r' := by
  obtain ⟨-, -, -, -, -, -, -, hw, hr'⟩ := updateCollision_ok sc hS h
  refine ⟨?_, hw⟩
  rw [hr']
  exact hS.initialized

/-! ## Selection of the next waypoint -/

/-- The search for the best child of the root only reads. -/
theorem bestChild_reads (root : Viewpoint) : ∀ (is : List Nat) (best : Float) (next : Int)
    (r r' : LocalRun) (x : Float × Int), bestChild root is best next r = .ok x r' → r' = r
  | [], best, next, r, r', x, h => by
    simp only [bestChild, pure, EStateM.pure, EStateM.Result.ok.injEq] at h
    exact h.2.symm
  | i :: is, best, next, r, r', x, h => by
    unfold bestChild at h
    rw [run_bind_eq_ok] at h
    obtain ⟨w, r₁, hn, h⟩ := h
    obtain ⟨t', hn', hr₁⟩ := onTree_eq_ok.1 hn
    obtain ⟨ht', -⟩ := neighbor_ok hn'
    rw [hr₁, ht', LocalRun.withTree_self, run_bind_eq_ok] at h
    obtain ⟨a, r₂, ha, h⟩ := h
    obtain ⟨-, hr₂⟩ := lift_eq_ok.1 ha
    rw [hr₂] at h
    split_ifs at h <;> exact bestChild_reads root is _ _ r r' x h

/-- **Rounds of rewiring** that return keep a well-formed tree well formed, with its connections
and root flags, and values above minus infinity where they were. -/
theorem rewire_ok (cfg : LocalSettings) : ∀ (fuel rounds : Nat) (r r' : LocalRun) (n : Nat),
    TreeWF r.planner.tree → rewire cfg fuel rounds r = .ok n r' →
    ∃ T, r' = r.withTree T ∧ TreeWF T ∧ SameLinks r.planner.tree T ∧
      (Valued r.planner.tree → Valued T)
  | 0, rounds, r, r', n, hw, h => by
    simp only [rewire, pure, EStateM.pure, EStateM.Result.ok.injEq] at h
    exact ⟨r.planner.tree, by rw [← h.2, LocalRun.withTree_self], hw, .refl _, id⟩
  | fuel + 1, rounds, r, r', n, hw, h => by
    unfold rewire at h
    rw [run_bind_eq_ok] at h
    obtain ⟨b, r₁, hb, h⟩ := h
    obtain ⟨-, hr₁⟩ := lift_eq_ok.1 hb
    rw [hr₁] at h
    cases b with
    | false =>
      -- the most rounds are made
      simp only [Bool.not_false, if_true, pure, EStateM.pure, EStateM.Result.ok.injEq] at h
      exact ⟨r.planner.tree, by rw [← h.2, LocalRun.withTree_self], hw, .refl _, id⟩
    | true =>
      simp only [Bool.not_true, Bool.false_eq_true, if_false] at h
      replace h := run_bind_ok_of (onTree_read rfl (points_run _)) h
      rw [run_bind_eq_ok] at h
      obtain ⟨changed, r₃, hround, h⟩ := h
      -- one round over all the nodes keeps the tree well formed
      obtain ⟨changed', T, hrun, hsame, hT, hV, -⟩ := rewireRound_run _ _ _ r rfl hw (fun _ h => h)
        hw.linked.nodup hw.linked.stored.map_serial_points
      rw [hround, EStateM.Result.ok.injEq] at hrun
      obtain ⟨-, hr₃⟩ := hrun
      rw [hr₃] at h
      cases changed with
      | false =>
        simp only [Bool.not_false, if_true, pure, EStateM.pure, EStateM.Result.ok.injEq] at h
        exact ⟨T, h.2.symm, hT, hsame, hV⟩
      | true =>
        simp only [Bool.not_true, Bool.false_eq_true, if_false] at h
        obtain ⟨T', rfl, hT', hsame', hV'⟩ := rewire_ok cfg fuel (rounds + 1) _ r' n hT h
        exact ⟨T', by rw [LocalRun.withTree_withTree], hT', hsame.trans (by simpa using hsame'),
          fun hV₀ => by simpa using hV' (by simpa using hV hV₀)⟩

/-- **Selecting the next waypoint**, when it returns, leaves the planner as it was, for fewer
than two nodes, or with its tree rewired to a well-formed tree `T` of the same connections and
root flags, and values above minus infinity where they were; then either `T` is left as it is,
or the root `ρ` of `T` hands over to the node at the other end of the connection `e` at place `i`,
which is then flown. Only the tree, the connection flown, the phases and the counts change. -/
theorem selectNext_ok {r r' : LocalRun} {w : Option Pose} (hS : Started r)
    (h : selectNext r = .ok w r') :
    r' = r ∨ ∃ T, TreeWF T ∧ SameLinks r.planner.tree T ∧ (Valued r.planner.tree → Valued T) ∧
      (r' = { r with planner := { r.planner with
          tree := T, phases := r'.planner.phases, stats := r'.planner.stats } } ∨
        ∃ ρ i e, ρ ∈ T.arena ∧ (∀ id ∈ T.arena, (T.node id).isRoot = true ↔ id = ρ) ∧
          T.root = some (T.slots.getD ρ 0) ∧ (T.node ρ).links[i]? = some e ∧
          r' = { r with planner := { r.planner with
            tree := T.moveRoot ρ (farEnd e) i, current := some e.2,
            phases := r'.planner.phases, stats := r'.planner.stats } }) := by
  have hw := hS.wf
  unfold selectNext at h
  replace h := run_bind_ok_of (onTree_read rfl (size_run _)) h
  split_ifs at h with hlt
  · -- fewer than two nodes: nothing is done
    obtain ⟨-, rfl⟩ := EStateM.Result.ok.inj h
    exact .inl rfl
  replace h := run_bind_ok_of (phase_run _ _) h
  -- the repair changes nothing: every chain reaches the root
  replace h := run_bind_ok_of
    (onTree_read (by rfl) (hw.linked.symmetric.repair_run_of_reaches hw.reaches)) h
  replace h := run_bind_ok_of (planner_run _) h
  dsimp only at h
  rw [run_bind_eq_ok] at h
  obtain ⟨rounds, r₁, hrw, h⟩ := h
  obtain ⟨T, rfl, hT, hsame, hV⟩ := rewire_ok _ _ _ _ _ _ (by exact hw) hrw
  refine .inr ⟨T, hT, hsame, hV, ?_⟩
  replace h := run_bind_ok_of (count_run _ _) h
  obtain ⟨ρ, hρ, hroot, hone⟩ := hT.oneRoot
  replace h := run_bind_ok_of (onTree_read (by rfl) (rootPoint_run hroot)) h
  rw [run_bind_eq_ok] at h
  obtain ⟨⟨best, next⟩, r₂, hbc, h⟩ := h
  obtain rfl := bestChild_reads _ _ _ _ _ _ _ hbc
  dsimp only at h
  by_cases hneg : next < 0
  · -- no child to move to: only the count changes
    rw [if_pos hneg] at h
    replace h := run_bind_ok_of (count_run _ _) h
    obtain ⟨-, rfl⟩ := EStateM.Result.ok.inj h
    exact .inl rfl
  rw [if_neg hneg] at h
  obtain ⟨i, rfl⟩ : ∃ i : Nat, next = i := ⟨next.toNat, by omega⟩
  rw [Int.toNat_natCast, run_bind_eq_ok] at h
  obtain ⟨nr, r₃, hnb, h⟩ := h
  obtain ⟨t₃, hnb', rfl⟩ := onTree_eq_ok.1 hnb
  dsimp only [LocalRun.withTree_tree] at hnb'
  obtain ⟨rfl, e, he, -, rfl⟩ := neighbor_ok hnb'
  -- the move of the root to the child found, then the connection there flown
  obtain ⟨-, hset, hupd, hgetρ, hcur, -⟩ := handOver_steps hT hρ hroot he
  replace h := run_bind_ok_of (hset _ (by rfl)) h
  replace h := run_bind_ok_of (hupd _ (by rfl)) h
  replace h := run_bind_ok_of (hgetρ _ (by rfl)) h
  replace h := run_bind_ok_of (alter_run _ _) h
  rw [hcur, run_bind_eq_ok] at h
  obtain ⟨_, r₄, hq, h⟩ := h
  obtain ⟨q, rfl⟩ := refreshQuota_ok hq
  replace h := run_bind_ok_of (count_run _ _) h
  replace h := run_bind_ok_of (onTree_read (by rfl) (get_run _ _)) h
  obtain ⟨-, rfl⟩ := EStateM.Result.ok.inj h
  exact .inr ⟨ρ, i, e, hρ, hone, hroot, he, rfl⟩

/-- **Selecting the next waypoint**, when it returns, keeps a well-formed tree well formed: the
rewiring keeps it so, and a move of the root to a neighbour of the root does too. -/
theorem selectNext_started {r r' : LocalRun} {w : Option Pose} (hS : Started r)
    (h : selectNext r = .ok w r') : Started r' := by
  rcases selectNext_ok hS h with rfl | ⟨T, hT, -, -, hr' | ⟨ρ, i, e, hρ, hone, hroot, he, hr'⟩⟩
  · exact hS
  · refine ⟨?_, ?_⟩
    · rw [hr']
      exact hS.initialized
    · rw [hr']
      exact hT
  · refine ⟨?_, ?_⟩
    · rw [hr']
      exact hS.initialized
    · rw [hr']
      exact hT.moveRoot hρ hone he hroot

end LocalPlanner

end Exploration
