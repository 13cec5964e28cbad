import Mathlib
import Exploration.Proofs.PlanningRuns

/-!
# What runs of planning rounds keep besides a well-formed tree

Along a run of planning rounds (`Planned`), once the planner is set up, its tree keeps three more
things (`Steady`): every node records a value above minus infinity (`Valued`), every connection
held has a length the settings allow (`Costed`), and the connection flown, if any, is held by the
root (`HoldsAtRoot`), so that, the tree being linked, it is held at both its ends with the root at
one of them (`HoldsAtRoot.ends`).

Each phase of a round keeps them (`steady_preserved`): a reset leaves one node, of value zero,
with no connection and nothing flown; judging gains changes gains only; an expansion grafts a node
of value zero over connections it made within the allowed lengths, or keeps every node; the
collision update drops connections, never the one flown, and keeps the nodes joined to the root,
the root among them; the selection rewires, which keeps connections and root flags and leaves
values above minus infinity, and may move the root over a connection it then flies.

From a steady planner of two nodes or more the selection of the next waypoint advances
(`selectNext_advances`), so it does along every run that reaches two nodes, over a connection of
a length the settings allow (`planned_selection_advances`).
-/

namespace Exploration

namespace ViewpointTree

/-- The connection `c` is held by the root. -/
def HoldsAtRoot (t : ViewpointTree) (c : Link) : Prop :=
  ∃ ρ ∈ t.arena, (t.node ρ).isRoot = true ∧ ∃ b, (b, c) ∈ (t.node ρ).links

/-- **A connection held by the root is held at both its ends**, on a linked tree: it is held as
made at its parent and the other way at its target, one of the two the root. -/
theorem HoldsAtRoot.ends {t : ViewpointTree} (ht : Linked t) {c : Link} (h : t.HoldsAtRoot c) :
    c.parent ∈ t.arena ∧ (true, c) ∈ (t.node c.parent).links ∧
      c.target ∈ t.arena ∧ (false, c) ∈ (t.node c.target).links ∧
      ((t.node c.parent).isRoot = true ∨ (t.node c.target).isRoot = true) := by
  obtain ⟨ρ, hρ, hroot, b, hb⟩ := h
  have hh := ht.holds ρ hρ _ hb
  cases b with
  | true =>
    -- the root made it
    have hp : c.parent = ρ := hh.near
    subst hp
    obtain ⟨ht', hc'⟩ := ht.held_at_target hρ hb
    exact ⟨hρ, hb, ht', hc', .inl hroot⟩
  | false =>
    -- the root is its target
    have htg : c.target = ρ := hh.near
    subst htg
    have hp : c.parent ∈ t.arena := hh.far_mem
    exact ⟨hp, ht.made_at hρ hb, hρ, hb, .inr hroot⟩

/-- Two trees in the same shape hold the same connections at their roots. -/
theorem HoldsAtRoot.of_sameLinks {t t' : ViewpointTree} {c : Link} (h : t.HoldsAtRoot c)
    (hs : SameLinks t t') : t'.HoldsAtRoot c := by
  obtain ⟨ρ, hρ, hroot, b, hb⟩ := h
  refine ⟨ρ, hs.arena ▸ hρ, (hs.place ρ hρ).isRoot ▸ hroot, b, ?_⟩
  rw [(hs.place ρ hρ).links]
  exact hb

/-- Keeping every node keeps what the root holds. -/
theorem HoldsAtRoot.of_untouched {t t' : ViewpointTree} {c : Link} (h : t.HoldsAtRoot c)
    (hu : Untouched t t') : t'.HoldsAtRoot c := by
  obtain ⟨ρ, hρ, hroot, b, hb⟩ := h
  exact ⟨ρ, hu.arena ▸ hρ, by rw [hu.node ρ hρ]; exact hroot, b, by rw [hu.node ρ hρ]; exact hb⟩

/-- Grafting a node keeps what the root holds: old nodes only gain connections. -/
theorem HoldsAtRoot.of_graft {t t' : ViewpointTree} {a : Int} {s : Nat} {L : List Link}
    {c : Link} (h : t.HoldsAtRoot c) (hg : Graft t t' a s L) : t'.HoldsAtRoot c := by
  obtain ⟨ρ, hρ, hroot, b, hb⟩ := h
  refine ⟨ρ, by rw [hg.arena]; exact List.mem_append_left _ hρ, ?_, b, ?_⟩
  · rw [hg.old ρ hρ]
    exact hroot
  · rw [hg.old ρ hρ]
    exact List.mem_append_left _ hb

/-- Dropping connections keeps what the root holds, where the connection is kept. -/
theorem HoldsAtRoot.of_trim {t t' : ViewpointTree} {keep : Link → Bool} {c : Link}
    (h : t.HoldsAtRoot c) (htrim : Trim t t' keep) (hkeep : keep c = true) : t'.HoldsAtRoot c := by
  obtain ⟨ρ, hρ, hroot, b, hb⟩ := h
  refine ⟨ρ, htrim.arena ▸ hρ, by rw [htrim.node ρ hρ]; exact hroot, b, ?_⟩
  rw [htrim.links hρ]
  exact List.mem_filter.2 ⟨hb, hkeep⟩

/-- Keeping the nodes joined to the root keeps what the root holds. -/
theorem HoldsAtRoot.of_kept {t t' : ViewpointTree} {c : Link} (h : t.HoldsAtRoot c)
    (hk : Kept t t' (JoinedIn t fun _ => True)) : t'.HoldsAtRoot c := by
  obtain ⟨ρ, hρ, hroot, b, hb⟩ := h
  have hρ' : ρ ∈ t'.arena := (hk.mem_iff ρ).2 ⟨hρ, .root hρ trivial hroot⟩
  exact ⟨ρ, hρ', by rw [hk.node ρ hρ']; exact hroot, b, by rw [hk.node ρ hρ']; exact hb⟩

/-- Values above minus infinity stay so where the nodes kept keep their values. -/
theorem Valued.mono {t t' : ViewpointTree} (hV : Valued t)
    (h : ∀ id ∈ t'.arena, id ∈ t.arena ∧ (t'.node id).value = (t.node id).value) : Valued t' :=
  fun id hid => (h id hid).2 ▸ hV id (h id hid).1

/-- Allowed lengths stay so where the nodes kept hold only connections they held. -/
theorem Costed.mono {cfg : LocalSettings} {t t' : ViewpointTree} (hC : t.Costed cfg)
    (h : ∀ id ∈ t'.arena, id ∈ t.arena ∧ ∀ e ∈ (t'.node id).links, e ∈ (t.node id).links) :
    t'.Costed cfg :=
  fun id hid e he => hC id (h id hid).1 e ((h id hid).2 e he)

/-- After a trim, a node kept holds only connections it held, and its value. -/
theorem Trim.node_sub {t t' : ViewpointTree} {keep : Link → Bool} (htrim : Trim t t' keep) :
    ∀ id ∈ t'.arena, id ∈ t.arena ∧ (t'.node id).value = (t.node id).value ∧
      ∀ e ∈ (t'.node id).links, e ∈ (t.node id).links := by
  intro id hid
  rw [htrim.arena] at hid
  refine ⟨hid, by rw [htrim.node id hid], fun e he => ?_⟩
  rw [htrim.links hid] at he
  exact List.mem_of_mem_filter he

/-- After keeping some nodes, a node kept is as it was. -/
theorem Kept.node_sub {t t' : ViewpointTree} {P : Int → Prop} (hk : Kept t t' P) :
    ∀ id ∈ t'.arena, id ∈ t.arena ∧ (t'.node id).value = (t.node id).value ∧
      ∀ e ∈ (t'.node id).links, e ∈ (t.node id).links := fun id hid =>
  ⟨((hk.mem_iff id).1 hid).1, by rw [hk.node id hid], fun e he => by rwa [hk.node id hid] at he⟩

/-- A reset leaves one node, the root, at the origin, with no connection and the value zero. -/
theorem reset_single {t t' : ViewpointTree} {origin : Pose} {s : Nat}
    (h : reset origin t = .ok s t') :
    t'.arena = [0] ∧ t'.node 0 = { serial := t.fresh, id := 0, pose := origin, isRoot := true } := by
  simp [reset, bind, EStateM.bind, modify, modifyGet, MonadStateOf.modifyGet, EStateM.modifyGet,
    addPoint, ensureId, MonadState.get, getThe, MonadStateOf.get, EStateM.get, set, EStateM.set,
    pure, EStateM.pure] at h
  cases hi : (t.index.clear.insert 0
      ({ serial := t.fresh, id := 0, pose := origin, isRoot := true } : Viewpoint).position.toList).2 with
  | some e => simp [hi, throw, throwThe, MonadExceptOf.throw, EStateM.throw] at h
  | none =>
    simp only [hi, EStateM.pure, EStateM.Result.ok.injEq] at h
    obtain ⟨-, rfl⟩ := h
    exact ⟨rfl, by simp [node]⟩

end ViewpointTree

namespace LocalPlanner

open ViewpointTree

/-- A planner set up whose tree is well formed, records values above minus infinity, holds only
connections of lengths the settings allow, and holds the connection flown, if any, at its root. -/
structure Steady (r : LocalRun) : Prop extends Started r where
  valued : Valued r.planner.tree
  costed : r.planner.tree.Costed r.planner.settings
  flown : ∀ c, r.planner.current = some c → r.planner.tree.HoldsAtRoot c

/-- Whether a planner is steady reads its flag, tree, settings and connection flown alone. -/
theorem Steady.congr {r r' : LocalRun} (hS : Steady r)
    (hi : r'.planner.initialized = r.planner.initialized) (ht : r'.planner.tree = r.planner.tree)
    (hs : r'.planner.settings = r.planner.settings) (hc : r'.planner.current = r.planner.current) :
    Steady r' where
  toStarted := hS.toStarted.congr hi ht
  valued := ht ▸ hS.valued
  costed := by rw [ht, hs]; exact hS.costed
  flown c hc' := ht ▸ hS.flown c (hc ▸ hc')

/-- A reset that returns leaves a steady planner: one node, of value zero, no connection, and
nothing flown. -/
theorem resetAt_steady {origin : Pose} {r r' : LocalRun} (h : resetAt origin r = .ok () r') :
    Steady r' := by
  have hS := resetAt_started h
  unfold resetAt at h
  rw [run_bind_eq_ok] at h
  obtain ⟨s, r₁, hres, h⟩ := h
  obtain ⟨t₁, hres', rfl⟩ := onTree_eq_ok.1 hres
  rw [alter_run] at h
  obtain ⟨-, rfl⟩ := EStateM.Result.ok.inj h
  obtain ⟨harena, hnode⟩ := reset_single hres'
  have hone : ∀ id ∈ t₁.arena, id = 0 := fun id hid => by simpa [harena] using hid
  refine ⟨hS, fun id hid => ?_, fun id hid e he => ?_, fun c hc => by simp at hc⟩
  · rw [hone id hid]
    show -((1.0 : Float) / 0.0) < (t₁.node 0).value
    rw [hnode]
    exact (by decide : -((1.0 : Float) / 0.0) < 0.0)
  · rw [hone id hid] at he
    simp [hnode] at he

/-- Judging the gains afresh keeps the planner steady: only gains change. -/
theorem updateGains_steady (sc : Scene) {r r' : LocalRun} (hS : Steady r)
    (h : updateGains sc r = .ok () r') : Steady r' := by
  obtain ⟨T, hr', -, hsame, hval⟩ := updateGains_ok sc hS.toStarted h
  have ht : r'.planner.tree = T := by rw [hr']
  refine ⟨updateGains_started sc hS.toStarted h, ?_, ?_, fun c hc => ?_⟩
  · rw [ht]
    exact hS.valued.mono fun id hid => ⟨hsame.arena ▸ hid, hval id (hsame.arena ▸ hid)⟩
  · rw [ht, show r'.planner.settings = r.planner.settings by rw [hr']]
    exact hS.costed.mono fun id hid =>
      ⟨hsame.arena ▸ hid, fun e he => (hsame.place id (hsame.arena ▸ hid)).links ▸ he⟩
  · rw [ht]
    exact (hS.flown c (by rw [hr'] at hc; exact hc)).of_sameLinks hsame

/-- An expansion that returns keeps the planner steady: a node grafted records the value zero
and holds connections of allowed lengths, and the old nodes only gain such connections. -/
theorem expand_steady (sc : Scene) {r r' : LocalRun} {b : Bool} (hS : Steady r)
    (h : expand sc r = .ok b r') : Steady r' := by
  have hwf := hS.wf
  obtain ⟨hE, ⟨-, hu, -, -, -⟩ | ⟨-, ⟨a, s, L, hg, -, hlen⟩, -, -⟩⟩ :=
    expand_grafts sc hwf.linked.ahead h
  all_goals
    have hs : r'.planner.settings = r.planner.settings := by rw [hE]
    have hc : r'.planner.current = r.planner.current := by rw [hE]
    refine ⟨expand_started sc hS.toStarted h, ?_, ?_, fun c hc' => ?_⟩
  · -- nothing grafted: every node is kept
    exact hS.valued.mono fun id hid => ⟨hu.arena ▸ hid, by rw [hu.node id (hu.arena ▸ hid)]⟩
  · rw [hs]
    exact hS.costed.mono fun id hid =>
      ⟨hu.arena ▸ hid, fun e he => by rwa [hu.node id (hu.arena ▸ hid)] at he⟩
  · exact (hS.flown c (hc ▸ hc')).of_untouched hu
  · -- a node grafted, of value zero
    intro id hid
    rw [hg.arena, List.mem_append, List.mem_singleton] at hid
    rcases hid with hid | rfl
    · rw [hg.old id hid]
      exact hS.valued id hid
    · rw [hg.value]
      decide
  · -- its connections, and those the old nodes gain, have allowed lengths
    intro id hid e he
    rw [hs]
    rw [hg.arena, List.mem_append, List.mem_singleton] at hid
    rcases hid with hid | rfl
    · rw [hg.old id hid, List.mem_append] at he
      rcases he with he | he
      · exact hS.costed id hid e he
      · exact hlen e.2 (mem_incoming.1 he).2.1
    · rw [hg.own] at he
      obtain ⟨l, hl, rfl⟩ := List.mem_map.1 he
      exact hlen l hl
  · exact (hS.flown c (hc ▸ hc')).of_graft hg

/-- The collision update that returns keeps the planner steady: the connection flown is not
dropped, and the root, holding it, is kept. -/
theorem updateCollision_steady (sc : Scene) {r r' : LocalRun} {n : Int} (hS : Steady r)
    (h : updateCollision sc r = .ok n r') : Steady r' := by
  obtain ⟨T₁, keep, T₂, htrim, hflown, hk, htrim', -, hr'⟩ := updateCollision_ok sc hS.toStarted h
  have hs : r'.planner.settings = r.planner.settings := by rw [hr']
  have hc : r'.planner.current = r.planner.current := by rw [hr']
  -- every node left holds only connections it held, and its value
  have hsub : ∀ id ∈ r'.planner.tree.arena, id ∈ r.planner.tree.arena ∧
      (r'.planner.tree.node id).value = (r.planner.tree.node id).value ∧
      ∀ e ∈ (r'.planner.tree.node id).links, e ∈ (r.planner.tree.node id).links := by
    intro id hid
    obtain ⟨hid₂, hv₂, hl₂⟩ := htrim'.node_sub id hid
    obtain ⟨hid₁, hv₁, hl₁⟩ := hk.node_sub id hid₂
    obtain ⟨hid₀, hv₀, hl₀⟩ := htrim.node_sub id hid₁
    exact ⟨hid₀, hv₂.trans (hv₁.trans hv₀), fun e he => hl₀ e (hl₁ e (hl₂ e he))⟩
  refine ⟨updateCollision_started sc hS.toStarted h,
    hS.valued.mono fun id hid => ⟨(hsub id hid).1, (hsub id hid).2.1⟩, ?_, fun c hc' => ?_⟩
  · rw [hs]
    exact hS.costed.mono fun id hid => ⟨(hsub id hid).1, (hsub id hid).2.2⟩
  · -- the connection flown passes the walk, so the root keeps it
    have hc₀ : r.planner.current = some c := hc ▸ hc'
    have hroot := hS.flown c hc₀
    have hkeep : keep c = true := by
      obtain ⟨ρ, hρ, -, b, hb⟩ := hroot
      exact hflown ρ hρ (b, c) hb (by simp [flown, hc₀])
    exact ((hroot.of_trim htrim hkeep).of_kept hk).of_trim htrim' rfl

/-- Selecting the next waypoint, when it returns, keeps the planner steady: the rewiring keeps
connections and root flags and leaves values above minus infinity, and a move of the root flies
a connection the new root holds. -/
theorem selectNext_steady {r r' : LocalRun} {w : Option Pose} (hS : Steady r)
    (h : selectNext r = .ok w r') : Steady r' := by
  have hS' := selectNext_started hS.toStarted h
  rcases selectNext_ok hS.toStarted h with rfl | ⟨T, hT, hsame, hV, hr' | ⟨ρ, i, e, hρ, hone, hroot, he, hr'⟩⟩
  · exact hS
  · -- rewired, the root kept
    have ht : r'.planner.tree = T := by rw [hr']
    have hs : r'.planner.settings = r.planner.settings := by rw [hr']
    have hc : r'.planner.current = r.planner.current := by rw [hr']
    refine ⟨hS', ht ▸ hV hS.valued, ?_, fun c hc' => ht ▸ (hS.flown c (hc ▸ hc')).of_sameLinks hsame⟩
    rw [ht, hs]
    exact hS.costed.mono fun id hid =>
      ⟨hsame.arena ▸ hid, fun e he => (hsame.place id (hsame.arena ▸ hid)).links ▸ he⟩
  · -- rewired, then the root handed over: only flags and the old root's active connection change
    have ht : r'.planner.tree = T.moveRoot ρ (farEnd e) i := by rw [hr']
    have hs : r'.planner.settings = r.planner.settings := by rw [hr']
    have hc : r'.planner.current = some e.2 := by rw [hr']
    have hnode := moveRoot_node_of_mem hT hρ he
    have hh := hT.linked.holds ρ hρ e (List.mem_of_getElem? he)
    -- every node keeps its value and its connections
    have hkeep : ∀ id ∈ T.arena, ((T.moveRoot ρ (farEnd e) i).node id).value = (T.node id).value ∧
        ((T.moveRoot ρ (farEnd e) i).node id).links = (T.node id).links := by
      intro id hid
      rw [hnode id hid]
      split_ifs with h₁ h₂ <;> subst_vars <;> exact ⟨rfl, rfl⟩
    refine ⟨hS', ?_, ?_, fun c hc' => ?_⟩
    · rw [ht]
      exact (hV hS.valued).mono fun id hid => ⟨hid, (hkeep id hid).1⟩
    · rw [ht, hs]
      refine (hS.costed.mono fun id hid =>
        ⟨hsame.arena ▸ hid, fun e he => (hsame.place id (hsame.arena ▸ hid)).links ▸ he⟩).mono
          fun id hid => ⟨hid, fun e he => (hkeep id hid).2 ▸ he⟩
    · -- the new root holds the connection flown, the other way round
      rw [hc] at hc'
      cases hc'
      rw [ht]
      refine ⟨farEnd e, hh.far_mem, ?_, !e.1, ?_⟩
      · rw [hnode _ hh.far_mem, if_neg hh.far_ne, if_pos rfl]
      · rw [(hkeep _ hh.far_mem).2]
        exact hh.mirror

/-- **Every phase of a round keeps the planner steady.** -/
theorem steady_preserved : Preserved Steady where
  reset h := resetAt_steady h
  mission _ hS := hS.congr rfl rfl rfl rfl
  flag _ hS := hS.congr rfl rfl rfl rfl
  gains hS h := updateGains_steady _ hS h
  expand hS h := expand_steady _ hS h
  collision hS h := updateCollision_steady _ hS h
  select hS h := selectNext_steady hS h

/-- **The connection flown is held at both its ends, the root at one of them**, along every run
of planning rounds: it is held as made at its parent and the other way at its target. -/
theorem planned_flown_held {r : LocalRun} (h : Planned r) {c : Link}
    (hc : r.planner.current = some c) :
    c.parent ∈ r.planner.tree.arena ∧ (true, c) ∈ (r.planner.tree.node c.parent).links ∧
      c.target ∈ r.planner.tree.arena ∧ (false, c) ∈ (r.planner.tree.node c.target).links ∧
      ((r.planner.tree.node c.parent).isRoot = true ∨
        (r.planner.tree.node c.target).isRoot = true) := by
  rcases steady_preserved.planned h with ⟨-, -, h0⟩ | hS
  · rw [h0] at hc
    cases hc
  · exact (hS.flown c hc).ends hS.wf.linked

/-- **Along every run of planning rounds, a planner whose tree has two nodes or more is
steady.** -/
theorem Planned.steady {r : LocalRun} (h : Planned r) (htwo : 2 ≤ r.planner.tree.arena.length) :
    Steady r := by
  rcases steady_preserved.planned h with ⟨-, h0, -⟩ | hS
  · -- a fresh planner has no node
    rw [h0] at htwo
    simp at htwo
  · exact hS

/-- **Selecting the next waypoint along a run.** A planner of two nodes or more reached by
planning rounds, or steady otherwise, is steady; with a number for the most rounds of rewiring,
its selection advances (`Advance`): it rewires the tree, keeping its connections and root flags;
it moves the root to the child of the old root of largest value, the first of equal ones, over a
connection of a length the settings allow, as are all the connections of the old root; it flies
that connection, the active connection of both its ends, and keeps the tree well formed; where
the last round of rewiring changed nothing, the child's value is the one computed; and it returns
the pose of the new root with one more waypoint counted, unless the refresh of the local quota
fails. -/
theorem planned_selection_advances (r : LocalRun) (hr : Planned r ∨ Steady r)
    (htwo : 2 ≤ r.planner.tree.arena.length)
    (hmax : ∃ x, r.planner.settings.maxRewiring.numeric? = some x) :
    Steady r ∧ ∃ phases rounds T₁ ρ n i c, Advance r phases rounds T₁ ρ n i c := by
  have hS : Steady r := hr.elim (fun h => h.steady htwo) id
  exact ⟨hS, selectNext_advances hS.wf htwo hS.valued hS.costed hmax⟩

/-- The planner set up on `leafTree`, a root and one viewpoint below it, over a connection of
length one, on the default settings. -/
def leafPlannerRun : LocalRun :=
  { leafTreeRun with planner := { leafTreeRun.planner with initialized := true } }

theorem leafPlannerRun_steady : Steady leafPlannerRun := by
  have h0 : leafPlannerRun.planner.tree.node 0 = leafRoot := by
    simp [leafPlannerRun, leafTreeRun, node, leafTree, rootAndLeaf, Std.HashMap.getD_insert]
  have h1 : leafPlannerRun.planner.tree.node 1 = leaf := by
    simp [leafPlannerRun, leafTreeRun, node, leafTree, rootAndLeaf]
  have hmem : ∀ id ∈ leafPlannerRun.planner.tree.arena, id = 0 ∨ id = 1 := by
    simp [leafPlannerRun, leafTreeRun, leafTree, rootAndLeaf]
  have hallow : leafPlannerRun.planner.settings.AllowsLength leafLink.cost :=
    ⟨by decide, rfl, rfl⟩
  refine ⟨⟨rfl, leafTree_wf⟩, fun id hid => ?_, fun id hid e he => ?_, fun c hc => by cases hc⟩
  · rcases hmem id hid with rfl | rfl
    · rw [h0]
      decide
    · rw [h1]
      decide
  · rcases hmem id hid with rfl | rfl
    · rw [h0] at he
      simp only [leafRoot, List.mem_singleton] at he
      rw [he]
      exact hallow
    · rw [h1] at he
      simp only [leaf, List.mem_singleton] at he
      rw [he]
      exact hallow

/-- On `leafPlannerRun`, steady by hand, the selection advances to the one child of the root. -/
theorem selection_on_leaf : (Planned leafPlannerRun ∨ Steady leafPlannerRun) ∧
    2 ≤ leafPlannerRun.planner.tree.arena.length ∧
    (∃ x, leafPlannerRun.planner.settings.maxRewiring.numeric? = some x) ∧
    Steady leafPlannerRun ∧
    ∃ phases rounds T₁ ρ n i c, Advance leafPlannerRun phases rounds T₁ ρ n i c := by
  have htwo : 2 ≤ leafPlannerRun.planner.tree.arena.length := by decide
  have hmax : ∃ x, leafPlannerRun.planner.settings.maxRewiring.numeric? = some x := ⟨_, rfl⟩
  exact ⟨.inr leafPlannerRun_steady, htwo, hmax,
    planned_selection_advances leafPlannerRun (.inr leafPlannerRun_steady) htwo hmax⟩

end LocalPlanner

end Exploration
