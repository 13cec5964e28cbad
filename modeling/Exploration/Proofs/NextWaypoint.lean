import Mathlib
import Exploration.Proofs.Rewire
import Exploration.Proofs.TreeGrowth

/-!
# Selecting the next waypoint

`selectNext` ends a step of the local planner: it repairs the active connections, rewires the
tree in rounds, each node pointed at its way up of largest value (`selectBest`), until a round
changes nothing or the most rounds are made; then it picks among the children of the root the one
of largest value, the first of equal ones (`bestChild`), moves the root there and flies the
connection joining them.

Round by round, rewiring keeps the connections and the root flags, and the tree well formed
(`rewireRound_run`, `rewire_run`); a round that changes nothing leaves in every node its value
(`fresh_of_quiet`). Moving the root to a child keeps the tree well formed, the old root pointed
at the new one over the connection they share (`TreeWF.moveRoot`). From a well-formed tree of two
nodes or more, the whole selection (`selectNext_advances`) makes that move and returns the pose
of the new root, unless the refresh of the local quota fails after it (`Advance`).
-/

namespace Exploration

namespace ViewpointTree

/-- Every node records a value above minus infinity: a node enters the tree with the value zero,
and every value computed is above it (`ValueOf.neg_inf_lt`). -/
def Valued (t : ViewpointTree) : Prop :=
  ∀ id ∈ t.arena, -((1.0 : Float) / 0.0) < (t.node id).value

/-- Every connection a node holds has a length the settings `cfg` allow. -/
def Costed (cfg : LocalSettings) (t : ViewpointTree) : Prop :=
  ∀ id ∈ t.arena, ∀ e ∈ (t.node id).links, cfg.AllowsLength e.2.cost

/-- Every node of `ids` not flagged root records its value. -/
def Fresh (t : ViewpointTree) (ids : List Int) : Prop :=
  ∀ u ∈ ids, (t.node u).isRoot = false → ValueOf t u (t.node u).value

/-- Node `w` is at the other end of the connection at place `i` of node `x`, and its active
connection leads to `x`. -/
def ChildAt (t : ViewpointTree) (x : Int) (i : Nat) (w : Int) : Prop :=
  ∃ e, (t.node x).links[i]? = some e ∧ farEnd e = w ∧ (t.node w).activeTarget? = .ok (some x)

theorem SameButValues.refl (t : ViewpointTree) : SameButValues t t := ⟨rfl, fun _ => rfl⟩

theorem SameButValues.trans {t t' t'' : ViewpointTree} (h₁ : SameButValues t t')
    (h₂ : SameButValues t' t'') : SameButValues t t'' :=
  ⟨h₂.arena.trans h₁.arena, fun id => (h₂.node id).trans (h₁.node id)⟩

/-- The value of a node is one: two values of it compare equal. -/
theorem ValueOf.beq {t : ViewpointTree} {u : Int} {b c : Float} (hb : ValueOf t u b)
    (hc : ValueOf t u c) : (b == c) = true :=
  Float.beq_of_not_lt hb.isNaN_eq_false hc.isNaN_eq_false (hb.not_lt hc) (hc.not_lt hb)

/-- A node replaced by itself with another value differs from the tree in values only. -/
theorem Replaced.sameButValues_self {t t' : ViewpointTree} {u : Int} {b : Float}
    (h : Replaced t t' u { t.node u with value := b }) : SameButValues t t' :=
  (Replaced.refl t u).sameButValues h rfl

/-- On a well-formed tree, the active connection of a node not flagged root is at a place of
its connections, and a way up. -/
theorem TreeWF.active_way_up {t : ViewpointTree} (ht : TreeWF t) {u : Int} (hu : u ∈ t.arena)
    (hroot : (t.node u).isRoot = false) :
    ∃ n : Nat, (t.node u).active = .int n ∧ n < (t.node u).links.length ∧
      ∃ k, ReachesRoot (t.setActive u n) u k := by
  obtain ⟨n, hn⟩ := ht.linked.active_int u hu
  obtain ⟨k, hk⟩ := ht.reaches u hu
  obtain ⟨j, rfl, p, hp, hpj⟩ : ∃ j, k = j + 1 ∧ ∃ p, (t.node u).activeTarget? = .ok (some p) ∧
      ReachesRoot t p j := by
    cases hk with
    | root _ _ hr' => simp [hroot] at hr'
    | step _ _ _ hp hchain => exact ⟨_, rfl, _, hp, hchain⟩
  obtain ⟨e, hn0, he, rfl⟩ := (Viewpoint.activeTarget?_eq_some hn).1 hp
  refine ⟨n.toNat, by rw [hn, Int.toNat_of_nonneg hn0], (List.getElem?_eq_some_iff.1 he).1, ?_⟩
  -- the chain from the parent does not come back to `u`, which is one step further up
  rw [(replaced_setActive t u n.toNat).reaches_iff ht hu hroot]
  refine ⟨e, he, fun hon => ?_⟩
  obtain ⟨j', hj', hu', -⟩ := hon.depth hpj
  have := hk.unique hu'
  omega

/-- The viewpoints of the tree are listed by their identities. -/
theorem Stored.map_serial_points {T : ViewpointTree} (hT : Stored T) :
    (T.arena.map T.node).map (·.serial) = T.arena.map (T.slots.getD · 0) := by
  rw [List.map_map]
  exact List.map_congr_left fun id hid => hT.serial_eq id hid

/-! ## Moving the root -/

/-- The tree with the root flag moved from node `ρ` to node `n`. -/
def flagRoot (t : ViewpointTree) (ρ n : Int) : ViewpointTree :=
  { (t.setNode ρ { t.node ρ with isRoot := false }).setNode n { t.node n with isRoot := true } with
    root := some (t.slots.getD n 0) }

/-- The tree once the root moves from node `ρ` to node `n` and `ρ` is pointed at its place `i`. -/
def moveRoot (t : ViewpointTree) (ρ n : Int) (i : Nat) : ViewpointTree :=
  (t.flagRoot ρ n).setNode ρ { t.node ρ with isRoot := false, active := .int i }

@[simp] theorem flagRoot_arena (t : ViewpointTree) (ρ n : Int) :
    (t.flagRoot ρ n).arena = t.arena := rfl

@[simp] theorem flagRoot_slots (t : ViewpointTree) (ρ n : Int) :
    (t.flagRoot ρ n).slots = t.slots := rfl

theorem flagRoot_objects (t : ViewpointTree) (ρ n : Int) :
    (t.flagRoot ρ n).objects = ((t.setNode ρ { t.node ρ with isRoot := false }).setNode n
      { t.node n with isRoot := true }).objects := rfl

/-- The flagged tree is read as the tree with its two viewpoints replaced: only the identity of
the root differs, which no node reads. -/
theorem node_flagRoot (t : ViewpointTree) (ρ n id : Int) :
    (t.flagRoot ρ n).node id = ((t.setNode ρ { t.node ρ with isRoot := false }).setNode n
      { t.node n with isRoot := true }).node id :=
  node_congr (by rw [flagRoot_slots, setNode_slots, setNode_slots]) (by rw [flagRoot_objects])

@[simp] theorem moveRoot_arena (t : ViewpointTree) (ρ n : Int) (i : Nat) :
    (t.moveRoot ρ n i).arena = t.arena := rfl

@[simp] theorem moveRoot_slots (t : ViewpointTree) (ρ n : Int) (i : Nat) :
    (t.moveRoot ρ n i).slots = t.slots := rfl

@[simp] theorem moveRoot_index (t : ViewpointTree) (ρ n : Int) (i : Nat) :
    (t.moveRoot ρ n i).index = t.index := rfl

@[simp] theorem moveRoot_nextNode (t : ViewpointTree) (ρ n : Int) (i : Nat) :
    (t.moveRoot ρ n i).nextNode = t.nextNode := rfl

@[simp] theorem moveRoot_nextLink (t : ViewpointTree) (ρ n : Int) (i : Nat) :
    (t.moveRoot ρ n i).nextLink = t.nextLink := rfl

@[simp] theorem moveRoot_fresh (t : ViewpointTree) (ρ n : Int) (i : Nat) :
    (t.moveRoot ρ n i).fresh = t.fresh := rfl

@[simp] theorem moveRoot_root (t : ViewpointTree) (ρ n : Int) (i : Nat) :
    (t.moveRoot ρ n i).root = some (t.slots.getD n 0) := rfl

namespace Stored

variable {t : ViewpointTree} (h : Stored t) {ρ n : Int} (hρ : ρ ∈ t.arena) (hn : n ∈ t.arena)
include h hρ hn

theorem flagRoot_node {id : Int} (hid : id ∈ t.arena) :
    (t.flagRoot ρ n).node id = if id = n then { t.node n with isRoot := true }
      else if id = ρ then { t.node ρ with isRoot := false } else t.node id := by
  have h₁ : Stored (t.setNode ρ { t.node ρ with isRoot := false }) := h.setNode hρ rfl rfl
  rw [node_flagRoot, h₁.node_setNode hn hid, h.node_setNode hρ hid]

theorem flagRoot (hne : n ≠ ρ) : Stored (t.flagRoot ρ n) := by
  have hs := (h.setNode hρ (w := { t.node ρ with isRoot := false }) rfl rfl).setNode hn
    (w := { t.node n with isRoot := true })
    (by rw [h.node_setNode hρ hn, if_neg hne]) (by rw [h.node_setNode hρ hn, if_neg hne])
  -- read through the fields of `t`: matched against the replaced tree instead, they make the
  -- kernel unfold both trees
  refine ⟨h.nodup, h.contains_iff, fun id hid => ?_, fun id hid => ?_⟩
  · rw [flagRoot_arena] at hid
    rw [node_flagRoot, flagRoot_slots]
    exact hs.serial_eq id hid
  · rw [flagRoot_arena] at hid
    rw [node_flagRoot]
    exact hs.id_eq id hid

theorem moveRoot_node (hne : n ≠ ρ) (i : Nat) {id : Int} (hid : id ∈ t.arena) :
    (t.moveRoot ρ n i).node id = if id = ρ then { t.node ρ with isRoot := false, active := .int i }
      else if id = n then { t.node n with isRoot := true } else t.node id := by
  rw [moveRoot, (h.flagRoot hρ hn hne).node_setNode hρ hid, h.flagRoot_node hρ hn hid]
  by_cases hiρ : id = ρ
  · simp [hiρ]
  · by_cases hin : id = n <;> simp [hiρ, hin]

/-- Moving the root flag: the old root `ρ`, then `n`, change their flags. -/
theorem setRoot_run (hne : n ≠ ρ) (hroot : t.root = some (t.slots.getD ρ 0)) :
    setRoot (t.slots.getD n 0) t = .ok () (t.flagRoot ρ n) := by
  have h₁ : Stored (t.setNode ρ { t.node ρ with isRoot := false }) := h.setNode hρ rfl rfl
  have hupd₁ := h.update_node_run hρ (fun v => { v with isRoot := false }) rfl
  have hupd₂ := h₁.update_node_run hn (fun v => { v with isRoot := true }) rfl
  rw [h.node_setNode hρ hn, if_neg hne, setNode_slots] at hupd₂
  simp only [setRoot, rootSerial, hroot, bind, EStateM.bind, MonadState.get, getThe,
    MonadStateOf.get, EStateM.get, pure, EStateM.pure, hupd₁, hupd₂]
  rfl

end Stored

/-- Two connections of a node that lead to the same node are one. -/
theorem Linked.eq_of_farEnd_eq {t : ViewpointTree} (h : Linked t) {id : Int} (hid : id ∈ t.arena)
    {e e' : Bool × Link} (he : e ∈ (t.node id).links) (he' : e' ∈ (t.node id).links)
    (hf : farEnd e = farEnd e') : e = e' :=
  List.inj_on_of_nodup_map (h.far_nodup id hid) he he' hf

/-- A tree with the nodes and connection counter of a linked tree, whose identity and node id
counters have not gone back, and whose every node keeps its identity, node id and connections and
has a whole number for its active value, is linked: root flags, poses, gains and values play no
part. -/
theorem Linked.of_agree {t t' : ViewpointTree} (ht : Linked t) (harena : t'.arena = t.arena)
    (hslots : t'.slots = t.slots) (hnextNode : t.nextNode ≤ t'.nextNode)
    (hnextLink : t'.nextLink = t.nextLink) (hfresh : t.fresh ≤ t'.fresh)
    (hnode : ∀ id ∈ t.arena, (t'.node id).serial = (t.node id).serial ∧
      (t'.node id).id = (t.node id).id ∧ (t'.node id).links = (t.node id).links)
    (hactive : ∀ id ∈ t.arena, ∃ k : Int, (t'.node id).active = .int k) : Linked t' where
  nodup := harena ▸ ht.nodup
  contains_iff id := by rw [hslots, harena]; exact ht.contains_iff id
  serial_eq id hid := by
    rw [harena] at hid
    rw [(hnode id hid).1, hslots]
    exact ht.serial_eq id hid
  id_eq id hid := by
    rw [harena] at hid
    rw [(hnode id hid).2.1]
    exact ht.id_eq id hid
  slot_lt id hid := by
    rw [harena] at hid
    rw [hslots]
    exact lt_of_lt_of_le (ht.slot_lt id hid) hfresh
  id_range id hid := by
    rw [harena] at hid
    exact ⟨(ht.id_range id hid).1, lt_of_lt_of_le (ht.id_range id hid).2 hnextNode⟩
  active_int id hid := hactive id (harena ▸ hid)
  holds id hid e he := by
    rw [harena] at hid
    rw [(hnode id hid).2.2] at he
    have hh := ht.holds id hid e he
    refine ⟨hh.near, harena ▸ hh.far_mem, hh.far_ne, ?_, hnextLink ▸ hh.id_lt⟩
    rw [(hnode _ hh.far_mem).2.2]
    exact hh.mirror
  same_id a ha b hb e he e' he' := by
    rw [harena] at ha hb
    rw [(hnode a ha).2.2] at he
    rw [(hnode b hb).2.2] at he'
    exact ht.same_id a ha b hb e he e' he'
  far_nodup id hid := by
    rw [harena] at hid
    rw [(hnode id hid).2.2]
    exact ht.far_nodup id hid

section Moved

/-! Throughout, `ρ` is the root of the well-formed tree `t`, and `n` a child of it, at the other
end of the connection `e` at place `i` of `ρ`. -/

variable {t : ViewpointTree} {ρ : Int} {i : Nat} {e : Bool × Link} (ht : TreeWF t)
  (hρ : ρ ∈ t.arena) (hone : ∀ id ∈ t.arena, (t.node id).isRoot = true ↔ id = ρ)
  (he : (t.node ρ).links[i]? = some e)
include ht hρ he

theorem moveRoot_node_of_mem (id : Int) (hid : id ∈ t.arena) :
    (t.moveRoot ρ (farEnd e) i).node id =
      if id = ρ then { t.node ρ with isRoot := false, active := .int i }
      else if id = farEnd e then { t.node (farEnd e) with isRoot := true } else t.node id :=
  have hh := ht.linked.holds ρ hρ e (List.mem_of_getElem? he)
  ht.linked.stored.moveRoot_node hρ hh.far_mem hh.far_ne i hid

/-- After the move the old root is pointed at the new one, over the connection at place `i`. -/
theorem moveRoot_activeLink_old :
    ((t.moveRoot ρ (farEnd e) i).node ρ).activeLink? = .ok (some e.2) ∧
      ((t.moveRoot ρ (farEnd e) i).node ρ).activeTarget? = .ok (some (farEnd e)) := by
  have hlt : i < (t.node ρ).links.length := (List.getElem?_eq_some_iff.1 he).1
  rw [moveRoot_node_of_mem ht hρ he ρ hρ, if_pos rfl]
  constructor
  · rw [Viewpoint.activeLink?_int rfl]
    simp [hlt, (List.getElem?_eq_some_iff.1 he).2]
  · rw [Viewpoint.activeTarget?_eq_some rfl]
    exact ⟨e, by omega, by simpa using he, rfl⟩

include hone in
/-- After the move the new root is the one node flagged root. -/
theorem moveRoot_isRoot_iff (id : Int) (hid : id ∈ t.arena) :
    ((t.moveRoot ρ (farEnd e) i).node id).isRoot = true ↔ id = farEnd e := by
  have hh := ht.linked.holds ρ hρ e (List.mem_of_getElem? he)
  rw [moveRoot_node_of_mem ht hρ he id hid]
  split_ifs with h₁ h₂
  · subst h₁
    simpa using hh.far_ne.symm
  · simp [h₂]
  · simpa [h₂] using (hone id hid).not.2 h₁

include hone in
/-- **Moving the root** to a child keeps the tree well formed: the old root, pointed at the new
one, now continues every chain that ended at it. -/
theorem TreeWF.moveRoot (hroot : t.root = some (t.slots.getD ρ 0)) :
    TreeWF (t.moveRoot ρ (farEnd e) i) := by
  have hh := ht.linked.holds ρ hρ e (List.mem_of_getElem? he)
  have hnode := moveRoot_node_of_mem ht hρ he
  refine ⟨Linked.of_agree ht.linked (moveRoot_arena ..) (moveRoot_slots ..) (moveRoot_nextNode ..).ge
      (moveRoot_nextLink ..) (moveRoot_fresh ..).ge (fun id hid => ?_) (fun id hid => ?_),
    ⟨farEnd e, hh.far_mem, by rw [moveRoot_root, moveRoot_slots], fun id hid => ?_⟩,
    ⟨ht.indexed.wf, ?_⟩, fun id hid => ?_⟩
  · rw [hnode id hid]
    split_ifs with h₁ h₂ <;> subst_vars <;> exact ⟨rfl, rfl, rfl⟩
  · rw [hnode id hid]
    split_ifs with h₁ h₂
    · exact ⟨i, rfl⟩
    · exact ht.linked.active_int _ hh.far_mem
    · exact ht.linked.active_int id hid
  · exact moveRoot_isRoot_iff ht hρ hone he id hid
  · rw [moveRoot_index, ht.indexed.entries, moveRoot_arena]
    refine List.map_congr_left fun id hid => ?_
    rw [hnode id hid]
    split_ifs with h₁ h₂ <;> subst_vars <;> rfl
  · -- the chains that ended at the old root continue to the new one
    obtain ⟨k, hk⟩ := ht.reaches id hid
    have hn' : ReachesRoot (t.moveRoot ρ (farEnd e) i) (farEnd e) 0 :=
      .root hh.far_mem trivial (by rw [hnode _ hh.far_mem, if_neg hh.far_ne, if_pos rfl])
    refine hk.transfer_except (X := fun w => w = ρ ∨ w = farEnd e) (fun w hw => hw)
      (fun w hw hX => ?_) ?_
    · rw [hnode w hw, if_neg fun h => hX (.inl h), if_neg fun h => hX (.inr h)]
      exact ⟨rfl, fun _ => rfl⟩
    · rintro w (hw | hw) <;> rw [hw]
      · exact ⟨1, .step hρ trivial (by rw [hnode ρ hρ, if_pos rfl])
          (moveRoot_activeLink_old ht hρ he).2 hn'⟩
      · exact ⟨0, hn'⟩

/-- After the move the new root's active connection is the one joining it to the old root. -/
theorem moveRoot_activeLink_new (hn : (t.node (farEnd e)).activeTarget? = .ok (some ρ)) :
    ((t.moveRoot ρ (farEnd e) i).node (farEnd e)).activeLink? = .ok (some e.2) := by
  have hh := ht.linked.holds ρ hρ e (List.mem_of_getElem? he)
  rw [moveRoot_node_of_mem ht hρ he _ hh.far_mem, if_neg hh.far_ne, if_pos rfl]
  obtain ⟨m, hm⟩ := ht.linked.active_int _ hh.far_mem
  obtain ⟨e', hm0, he', hfar⟩ := (Viewpoint.activeTarget?_eq_some hm).1 hn
  -- the connection back to the old root is the mirror of `e`
  have hmir : e' = (!e.1, e.2) := ht.linked.eq_of_farEnd_eq hh.far_mem (List.mem_of_getElem? he')
    hh.mirror (by rw [hfar, farEnd_flip, hh.near])
  have hlt : m.toNat < (t.node (farEnd e)).links.length := (List.getElem?_eq_some_iff.1 he').1
  show (t.node (farEnd e)).activeLink? = _
  rw [Viewpoint.activeLink?_int hm, if_pos ⟨hm0, by omega⟩, he', hmir]
  rfl

end Moved

/-- In a well-formed tree, a node other than the root has a chain to the root whose last step is
a child of the root, held at some place of it. -/
theorem TreeWF.exists_childAt {t : ViewpointTree} (ht : TreeWF t) {ρ : Int}
    (hone : ∀ id ∈ t.arena, (t.node id).isRoot = true ↔ id = ρ) {x : Int} (hx : x ∈ t.arena)
    (hxρ : x ≠ ρ) : ∃ j w, j < (t.node ρ).links.length ∧ ChildAt t ρ j w := by
  obtain ⟨k, hk⟩ := ht.reaches x hx
  induction hk with
  | root hid _ hr => exact absurd ((hone _ hid).1 hr) hxρ
  | @step x p k hid _ hr hp hchain ih =>
    by_cases hpρ : p = ρ
    · -- `x` is a child of the root: the root holds the mirror of its active connection
      subst hpρ
      obtain ⟨m, hm⟩ := ht.linked.active_int x hid
      obtain ⟨e, -, he, hfar⟩ := (Viewpoint.activeTarget?_eq_some hm).1 hp
      have hh := ht.linked.holds x hid e (List.mem_of_getElem? he)
      have hmir := hh.mirror
      rw [hfar] at hmir
      obtain ⟨j, hj, hje⟩ := List.getElem_of_mem hmir
      refine ⟨j, x, hj, (!e.1, e.2), by rw [List.getElem?_eq_getElem hj, hje], ?_, hp⟩
      rw [farEnd_flip, hh.near]
    · exact ih hchain.mem.1 hpρ

theorem rootPoint_run {t : ViewpointTree} {ρ : Int} (hroot : t.root = some (t.slots.getD ρ 0)) :
    rootPoint t = .ok (t.node ρ) t := by
  simp [rootPoint, rootSerial, hroot, bind, EStateM.bind, MonadState.get, getThe,
    MonadStateOf.get, EStateM.get, pure, EStateM.pure, node]

end ViewpointTree

namespace LocalPlanner

open ViewpointTree

/-- **One node rewired.** On a well-formed tree, `selectBest` on a node not flagged root succeeds:
it points the node at a way up `i` and records in it the value `b` it has there, and changes
nothing else; the tree is well formed again. -/
theorem selectBest_run {t : ViewpointTree} (ht : TreeWF t) {u : Int} (hu : u ∈ t.arena)
    (hroot : (t.node u).isRoot = false) (r : LocalRun) (hr : r.planner.tree = t) :
    ∃ (i : Nat) (b : Float) (t' : ViewpointTree),
      selectBest (t.slots.getD u 0) r = .ok true (r.withTree t') ∧
      Replaced t t' u { t.node u with active := .int i, value := b } ∧
      ValueOf (t.setActive u i) u b ∧ TreeWF t' := by
  have hget : onTree (ViewpointTree.get (t.slots.getD u 0)) r = .ok (t.node u) r :=
    onTree_read hr rfl
  obtain ⟨n, -, hn, hway₀⟩ := ht.active_way_up hu hroot
  have hlinks : (t.node u).links ≠ [] := List.ne_nil_of_length_pos (by omega)
  obtain ⟨c₀, -, -, -, hc₀⟩ := valueAt_run ht hu hroot (r := r.withTree (t.setActive u n))
    (replaced_setActive t u n) hway₀
  -- every place is tried, the current one among them
  obtain ⟨best, idx, a, val, T, hrun, hT, hres, hmax⟩ :=
    tryEach_run ht hu hroot (List.range (t.node u).links.length) (-((1.0 : Float) / 0.0)) (-1) r
      (t.node u).active (t.node u).value (hr ▸ Replaced.refl t u) List.pairwise_lt_range
      (fun i _ => by omega) (by decide)
  have hbest := (hmax n (List.mem_range.2 hn) hway₀ c₀ hc₀).1
  obtain ⟨i, -, rfl, hway, hval, -⟩ : ∃ i ∈ List.range (t.node u).links.length, idx = i ∧
      (∃ k, ReachesRoot (t.setActive u i) u k) ∧ ValueOf (t.setActive u i) u best ∧
      -((1.0 : Float) / 0.0) < best := by
    rcases hres with ⟨rfl, rfl⟩ | hres
    · exact absurd hc₀.neg_inf_lt hbest
    · exact hres
  obtain ⟨t', hupd, hT'⟩ : ∃ t', onTree (ViewpointTree.update (t.slots.getD u 0)
      fun v => { v with active := .int i, value := best }) (r.withTree T) = .ok () (r.withTree t') ∧
      Replaced t t' u { t.node u with active := .int i, value := best } := by
    have hTs : Stored T := hT.stored ht.linked.stored hu rfl rfl
    refine ⟨_, onTree_run (T := T) rfl ?_, hT.trans (Replaced.setNode _ _ _)⟩
    rw [← hT.slots, hTs.update_node_run (hT.arena ▸ hu) _ (by rw [hT.node_self]), hT.node_self]
  refine ⟨i, best, t', ?_, hT', hval, hT'.treeWF ht hu hroot ?_⟩
  · have hne : ¬ ((i : Int) < 0) := by omega
    simp [selectBest, hget, hlinks, hroot, hrun, hne, hupd, bind, EStateM.bind, pure, EStateM.pure]
  · rw [hT'.reaches_iff ht hu hroot, ← (replaced_setActive t u i).reaches_iff ht hu hroot]
    exact hway

/-- **A round of rewiring.** On a well-formed tree, a round over the viewpoints of distinct nodes
`ids` succeeds: it rewires each node of `ids` not flagged root (`selectBest_run`) and changes
nothing else, so the connections and root flags stay and the tree is well formed again. A round
that changes no active connection changes values only, and leaves in each node of `ids` not
flagged root its value. -/
theorem rewireRound_run : ∀ (ids : List Int) (vs : List Viewpoint) (T : ViewpointTree)
    (r : LocalRun), r.planner.tree = T → TreeWF T → (∀ id ∈ ids, id ∈ T.arena) →
    ids.Nodup → vs.map (·.serial) = ids.map (T.slots.getD · 0) →
    ∃ (changed : Bool) (T' : ViewpointTree), rewireRound vs r = .ok changed (r.withTree T') ∧
      SameLinks T T' ∧ TreeWF T' ∧ (Valued T → Valued T') ∧
      (∀ w ∈ T.arena, w ∉ ids → T'.node w = T.node w) ∧
      (changed = false → SameButValues T T' ∧ Fresh T' ids)
  | [], vs, T, r, hr, hT, _, _, hvs => by
    rw [List.map_nil, List.map_eq_nil_iff] at hvs
    subst hvs hr
    exact ⟨false, r.planner.tree, rfl, SameLinks.refl _, hT, id, fun _ _ _ => rfl,
      fun _ => ⟨SameButValues.refl _, by simp [Fresh]⟩⟩
  | id :: ids, v :: vs, T, r, hr, hT, hids, hnd, hvs => by
    simp only [List.map_cons, List.cons.injEq] at hvs
    obtain ⟨hv, hvs⟩ := hvs
    have hid := hids id List.mem_cons_self
    have hids' : ∀ x ∈ ids, x ∈ T.arena := fun x hx => hids x (List.mem_cons_of_mem _ hx)
    obtain ⟨hnotin, hnd'⟩ := List.nodup_cons.1 hnd
    have hserial := hT.linked.serial_eq id hid
    have hget : onTree (ViewpointTree.get v.serial) r = .ok (T.node id) r :=
      onTree_read hr (by rw [hv]; rfl)
    cases hroot : (T.node id).isRoot with
    | true =>
      -- the root is passed over
      obtain ⟨changed, T', hrun, hsame, hT', hV', hframe, hquiet⟩ :=
        rewireRound_run ids vs T r hr hT hids' hnd' hvs
      refine ⟨changed, T', ?_, hsame, hT', hV',
        fun w hw hwn => hframe w hw fun h => hwn (List.mem_cons_of_mem _ h), fun hq => ?_⟩
      · simp [rewireRound, hget, hroot, bind, EStateM.bind]
        exact hrun
      · obtain ⟨hsbv, hfresh⟩ := hquiet hq
        refine ⟨hsbv, fun u hu hur => ?_⟩
        rcases List.mem_cons.1 hu with rfl | hu
        · rw [hframe u hid hnotin, hroot] at hur
          cases hur
        · exact hfresh u hu hur
    | false =>
      obtain ⟨i, b, t₁, hsel, hrep, hval, hwf₁⟩ := selectBest_run hT hid hroot r hr
      have hnode₁ : t₁.node id = { T.node id with active := .int i, value := b } := hrep.node_self
      have hget₁ : onTree (ViewpointTree.get (T.slots.getD id 0)) (r.withTree t₁) =
          .ok (t₁.node id) (r.withTree t₁) := onTree_read rfl (by rw [← hrep.slots]; rfl)
      have hother : ∀ w ∈ T.arena, w ≠ id → t₁.node w = T.node w := fun w hw hwu => by
        rw [hrep.node_of_mem hT.linked.stored hid hw, if_neg hwu]
      have hV₁ : Valued T → Valued t₁ := by
        intro hV w hw
        rw [hrep.arena] at hw
        by_cases hwu : w = id
        · subst hwu
          rw [hnode₁]
          exact hval.neg_inf_lt
        · rw [hother w hw hwu]
          exact hV w hw
      obtain ⟨changed, T', hrun, hsame, hT', hV', hframe, hquiet⟩ :=
        rewireRound_run ids vs t₁ (r.withTree t₁) rfl hwf₁ (fun x hx => hrep.arena ▸ hids' x hx)
          hnd' (by rw [hrep.slots]; exact hvs)
      have hsame₁ : SameLinks T t₁ :=
        hrep.sameLinks hT.linked.stored hid ⟨rfl, rfl, rfl, rfl, rfl⟩
      refine ⟨!((Value.int i).same (T.node id).active) || changed, T', ?_, hsame₁.trans hsame,
        hT', hV' ∘ hV₁, fun w hw hwn => ?_, fun hq => ?_⟩
      · simp [rewireRound, hget, hroot, hserial, hsel, hget₁, hnode₁, hrun, bind, EStateM.bind,
          pure, EStateM.pure]
      · rw [hframe w (hrep.arena ▸ hw) fun h => hwn (List.mem_cons_of_mem _ h),
          hother w hw fun h => hwn (h ▸ List.mem_cons_self)]
      · obtain ⟨hchg, hq'⟩ := Bool.or_eq_false_iff.1 hq
        obtain ⟨hsbv, hfresh⟩ := hquiet hq'
        -- the node kept its place, so only its value changed
        obtain ⟨n, hn⟩ := hT.linked.active_int id hid
        have hin : (i : Int) = n := by simpa [hn] using hchg
        have hkeep : ∀ c : Float, ({ T.node id with active := .int i, value := c } : Viewpoint) =
            { T.node id with value := c } := fun c => by rw [hin, ← hn]
        have hsbv₁ : SameButValues T t₁ := Replaced.sameButValues_self (hkeep b ▸ hrep)
        have hset : SameButValues T (T.setActive id i) :=
          Replaced.sameButValues_self (hkeep _ ▸ replaced_setActive T id i)
        refine ⟨hsbv₁.trans hsbv, fun u hu hur => ?_⟩
        rcases List.mem_cons.1 hu with rfl | hu
        · have hu' : T'.node u = t₁.node u := hframe u (hrep.arena ▸ hid) hnotin
          rw [hu', hnode₁]
          exact (hset.symm.trans (hsbv₁.trans hsbv)).valueOf hval
        · exact hfresh u hu hur
  | _ :: _, [], _, _, _, _, _, _, hvs => by simp at hvs

/-- A round over all the nodes that changes no active connection leaves in every node not
flagged root its value. -/
theorem fresh_of_quiet {T₀ T₁ : ViewpointTree} {r₀ : LocalRun} (hr : r₀.planner.tree = T₀)
    (hT : TreeWF T₀) (h : rewireRound (T₀.arena.map T₀.node) r₀ = .ok false (r₀.withTree T₁)) :
    Fresh T₁ T₁.arena := by
  obtain ⟨changed, T', hrun, hsame, -, -, -, hquiet⟩ :=
    rewireRound_run T₀.arena _ T₀ r₀ hr hT (fun _ h => h) hT.linked.nodup
      hT.linked.stored.map_serial_points
  rw [h] at hrun
  obtain ⟨rfl, hT'⟩ := EStateM.Result.ok.inj hrun
  obtain rfl : T₁ = T' := congrArg (·.planner.tree) hT'
  rw [hsame.arena]
  exact (hquiet rfl).2

@[simp] theorem alter_run (f : LocalPlanner → LocalPlanner) (r : LocalRun) :
    alter f r = .ok () { r with planner := f r.planner } := rfl

/-- A comparison of a whole number with a number returns. -/
theorem lessThan_int_ok {y : Value} (hy : ∃ x, y.numeric? = some x) (n : Int) :
    ∃ b, Value.lessThan (.int n) y = .ok b := by
  obtain ⟨x, hx⟩ := hy
  refine ⟨(Value.Numeric.whole n).compare? x == some .lt, ?_⟩
  unfold Value.lessThan
  rw [hx]
  rfl


/-- **Rewiring.** On a well-formed tree, with a number for the most rounds, rounds of rewiring
over all the nodes succeed and keep the connections and root flags; the tree is well formed
again. -/
theorem rewire_run (cfg : LocalSettings) (hmax : ∃ x, cfg.maxRewiring.numeric? = some x) :
    ∀ (fuel rounds : Nat) (T : ViewpointTree) (r : LocalRun), r.planner.tree = T → TreeWF T →
      Valued T → ∃ (rounds' : Nat) (T' : ViewpointTree),
        rewire cfg fuel rounds r = .ok rounds' (r.withTree T') ∧ SameLinks T T' ∧ TreeWF T' ∧
          Valued T'
  | 0, rounds, T, r, hr, hT, hV => by
    subst hr
    exact ⟨rounds, r.planner.tree, rfl, SameLinks.refl _, hT, hV⟩
  | fuel + 1, rounds, T, r, hr, hT, hV => by
    obtain ⟨b, hb⟩ := lessThan_int_ok hmax rounds
    have hpoints : onTree ViewpointTree.points r = .ok (T.arena.map T.node) r :=
      onTree_read hr (points_run T)
    cases b with
    | false =>
      -- the most rounds are made
      subst hr
      exact ⟨rounds, r.planner.tree, by simp [rewire, hb, lift, bind, EStateM.bind, pure,
        EStateM.pure], SameLinks.refl _, hT, hV⟩
    | true =>
      obtain ⟨changed, T₁, hround, hsame, hT₁, hV₁, -, -⟩ :=
        rewireRound_run T.arena (T.arena.map T.node) T r hr hT (fun _ h => h)
          hT.linked.nodup hT.linked.stored.map_serial_points
      cases changed with
      | false =>
        exact ⟨rounds + 1, T₁, by simp [rewire, hb, lift, hpoints, hround, bind, EStateM.bind,
          pure, EStateM.pure], hsame, hT₁, hV₁ hV⟩
      | true =>
        obtain ⟨rounds', T', hrun, hsame', hT', hV'⟩ :=
          rewire_run cfg hmax fuel (rounds + 1) T₁ (r.withTree T₁) rfl hT₁ (hV₁ hV)
        refine ⟨rounds', T', ?_, hsame.trans hsame', hT', hV'⟩
        simp [rewire, hb, lift, hpoints, hround, bind, EStateM.bind, pure, EStateM.pure]
        exact hrun

/-- **The child search.** On the connections of the root `ρ` at places `is`, increasing, all
after `next` and all held, the search returns `best` and `next` as they were, or a place of `is`
whose node is a child of `ρ`, with that child's value, above `best`. Every child among `is` has a
value at most the one returned, and below it at an earlier place. -/
theorem bestChild_run {T : ViewpointTree} (hT : Linked T) (hV : Valued T) {ρ : Int}
    (hρ : ρ ∈ T.arena) {r : LocalRun} (hr : r.planner.tree = T) :
    ∀ (is : List Nat) (best : Float) (next : Int), is.Pairwise (· < ·) → (∀ i ∈ is, next < i) →
      (∀ i ∈ is, i < (T.node ρ).links.length) → best.isNaN = false →
      ∃ (best' : Float) (next' : Int), bestChild (T.node ρ) is best next r = .ok (best', next') r ∧
        ((best' = best ∧ next' = next) ∨
          ∃ i ∈ is, ∃ w, next' = i ∧ ChildAt T ρ i w ∧ (T.node w).value = best' ∧ best < best') ∧
        ∀ j ∈ is, ∀ w, ChildAt T ρ j w →
          (T.node w).value ≤ best' ∧ ((j : Int) < next' → (T.node w).value < best')
  | [], best, next, _, _, _, _ => ⟨best, next, rfl, .inl ⟨rfl, rfl⟩, by simp⟩
  | i :: is, best, next, hsort, hnext, hlen, hbest => by
    obtain ⟨hi, his⟩ := List.pairwise_cons.1 hsort
    have hnext' : ∀ j ∈ is, next < j := fun j hj => hnext j (List.mem_cons_of_mem _ hj)
    have hlen' : ∀ j ∈ is, j < (T.node ρ).links.length :=
      fun j hj => hlen j (List.mem_cons_of_mem _ hj)
    obtain ⟨e, he⟩ : ∃ e, (T.node ρ).links[i]? = some e :=
      ⟨_, List.getElem?_eq_getElem (hlen i List.mem_cons_self)⟩
    have hh := hT.holds ρ hρ e (List.mem_of_getElem? he)
    have hnb : onTree (neighbor (T.node ρ) i) r = .ok (T.node (farEnd e)) r :=
      onTree_read hr (hT.symmetric.neighbor_run hρ he)
    have hid : (T.node ρ).id = ρ := hT.id_eq ρ hρ
    -- the value of the node at place `i` is a number
    have hv : (T.node (farEnd e)).value.isNaN = false :=
      (Float.isNaN_eq_false_of_lt (hV _ hh.far_mem)).2
    obtain ⟨m, hm⟩ := hT.active_int _ hh.far_mem
    obtain ⟨tgt, htgt⟩ : ∃ tgt, (T.node (farEnd e)).activeTarget? = .ok tgt :=
      ⟨_, Viewpoint.activeTarget?_int hm⟩
    -- a child at place `i` is the node at the other end of the connection there
    have hchild : ∀ w, ChildAt T ρ i w → w = farEnd e ∧ tgt = some ρ := by
      rintro w ⟨e', he', rfl, hw⟩
      rw [he] at he'
      cases he'
      rw [htgt] at hw
      exact ⟨rfl, Except.ok.inj hw⟩
    by_cases hc : tgt = some ρ
    · have hcat : ChildAt T ρ i (farEnd e) := ⟨e, he, rfl, hc ▸ htgt⟩
      by_cases hlt : best < (T.node (farEnd e)).value
      · -- a larger value: place `i` is the best so far
        obtain ⟨best', next', hrun, hres, hmax⟩ := bestChild_run hT hV hρ hr is _ i his
          (fun j hj => by exact_mod_cast hi j hj) hlen' hv
        refine ⟨best', next', ?_, ?_, fun j hj w hw => ?_⟩
        · simp [bestChild, hnb, htgt, lift, hid, hc, hlt, bind, EStateM.bind, pure, EStateM.pure]
          exact hrun
        · rcases hres with ⟨rfl, rfl⟩ | ⟨j, hj, w, rfl, hcw, hvw, hlt'⟩
          · exact .inr ⟨i, List.mem_cons_self, _, rfl, hcat, rfl, hlt⟩
          · exact .inr ⟨j, List.mem_cons_of_mem _ hj, w, rfl, hcw, hvw, Float.lt_trans hlt hlt'⟩
        · rcases List.mem_cons.1 hj with rfl | hj
          · obtain ⟨rfl, -⟩ := hchild w hw
            rcases hres with ⟨rfl, rfl⟩ | ⟨-, -, -, rfl, -, -, hlt'⟩
            · exact ⟨Float.le_of_not_lt hv hv (Float.not_lt_self _), fun h => absurd h (lt_irrefl _)⟩
            · exact ⟨Float.le_of_lt hlt', fun _ => hlt'⟩
          · exact hmax j hj w hw
      · -- not larger: the best so far stays
        obtain ⟨best', next', hrun, hres, hmax⟩ :=
          bestChild_run hT hV hρ hr is best next his hnext' hlen' hbest
        refine ⟨best', next', ?_, ?_, fun j hj w hw => ?_⟩
        · simp [bestChild, hnb, htgt, lift, hid, hc, hlt, bind, EStateM.bind, pure, EStateM.pure]
          exact hrun
        · rcases hres with hres | ⟨j, hj, hrest⟩
          · exact .inl hres
          · exact .inr ⟨j, List.mem_cons_of_mem _ hj, hrest⟩
        · rcases List.mem_cons.1 hj with rfl | hj
          · obtain ⟨rfl, -⟩ := hchild w hw
            rcases hres with ⟨rfl, rfl⟩ | ⟨-, -, -, rfl, -, -, hlt'⟩
            · exact ⟨Float.le_of_not_lt hbest hv hlt,
                fun h => absurd h (not_lt.2 (hnext j List.mem_cons_self).le)⟩
            · have hbv : (T.node (farEnd e)).value < best' :=
                Float.lt_of_not_lt_of_lt hv hbest (Float.isNaN_eq_false_of_lt hlt').2 hlt hlt'
              exact ⟨Float.le_of_lt hbv, fun _ => hbv⟩
          · exact hmax j hj w hw
    · -- no child at place `i`
      obtain ⟨best', next', hrun, hres, hmax⟩ :=
        bestChild_run hT hV hρ hr is best next his hnext' hlen' hbest
      refine ⟨best', next', ?_, ?_, fun j hj w hw => ?_⟩
      · simp [bestChild, hnb, htgt, lift, hid, hc, bind, EStateM.bind, pure, EStateM.pure]
        exact hrun
      · rcases hres with hres | ⟨j, hj, hrest⟩
        · exact .inl hres
        · exact .inr ⟨j, List.mem_cons_of_mem _ hj, hrest⟩
      · rcases List.mem_cons.1 hj with rfl | hj
        · exact absurd (hchild w hw).2 hc
        · exact hmax j hj w hw

/-- Counting the viewpoints near a point changes nothing. -/
theorem countNear_state (cfg : LocalSettings) (goal : Vec3) :
    ∀ (vs : List Viewpoint) (q q' : Value) (r r' : LocalRun),
      countNear cfg goal vs q r = .ok q' r' → r' = r
  | [], q, q', r, r', h => by
    simp only [countNear, pure, EStateM.pure, EStateM.Result.ok.injEq] at h
    exact h.2.symm
  | v :: vs, q, q', r, r', h => by
    obtain ⟨b, r₁, hb, h₁⟩ := run_bind_eq_ok.1 h
    obtain ⟨-, rfl⟩ := lift_eq_ok.1 hb
    cases b with
    | true =>
      rw [if_pos rfl] at h₁
      obtain ⟨q₁, r₂, hq, h₂⟩ := run_bind_eq_ok.1 h₁
      obtain ⟨-, rfl⟩ := lift_eq_ok.1 hq
      exact countNear_state cfg goal vs _ _ _ _ h₂
    | false =>
      rw [if_neg Bool.false_ne_true] at h₁
      exact countNear_state cfg goal vs _ _ _ _ h₁

/-- A refresh of the local quota that returns changes the quota alone. -/
theorem refreshQuota_ok {s : Nat} {r r' : LocalRun} (h : refreshQuota s r = .ok () r') :
    ∃ q, r' = { r with planner := { r.planner with
      stats := { r.planner.stats with localQuota := q } } } := by
  replace h := run_bind_ok_of (planner_run r) h
  obtain ⟨b, r₂, hb, h₂⟩ := run_bind_eq_ok.1 h
  obtain ⟨-, rfl⟩ := lift_eq_ok.1 hb
  cases b with
  | true =>
    -- no quota wanted
    rw [if_pos rfl] at h₂
    replace h₂ := run_bind_ok_of (count_run _ _) h₂
    exact ⟨_, (EStateM.Result.ok.inj h₂).2.symm⟩
  | false =>
    rw [if_neg Bool.false_ne_true] at h₂
    replace h₂ := run_bind_ok_of (onTree_read rfl (get_run _ _)) h₂
    obtain ⟨near, r₄, hnear, h₄⟩ := run_bind_eq_ok.1 h₂
    obtain ⟨t₄, hnear', rfl⟩ := onTree_eq_ok.1 hnear
    obtain rfl := nearest_state hnear'
    obtain ⟨q, r₅, hq, h₅⟩ := run_bind_eq_ok.1 h₄
    obtain rfl := countNear_state _ _ _ _ _ _ _ hq
    rw [count_run] at h₅
    exact ⟨q, by simpa using (EStateM.Result.ok.inj h₅).2.symm⟩

/-- **The best child is found.** On a well-formed tree of two nodes or more whose values are
above minus infinity, the child search over all the connections of the root `ρ` finds a child:
the node at the other end of the connection `e` at place `i`, of largest value among the children
of the root, the first of equal ones. -/
theorem bestChild_finds {T : ViewpointTree} (hT : TreeWF T) (hV : Valued T)
    (htwo : 2 ≤ T.arena.length) {ρ : Int} (hρ : ρ ∈ T.arena)
    (hone : ∀ id ∈ T.arena, (T.node id).isRoot = true ↔ id = ρ) {r : LocalRun}
    (hr : r.planner.tree = T) :
    ∃ (i : Nat) (e : Bool × Link),
      bestChild (T.node ρ) (List.range (T.node ρ).links.length) (-((1.0 : Float) / 0.0)) (-1) r =
        .ok ((T.node (farEnd e)).value, i) r ∧
      (T.node ρ).links[i]? = some e ∧ (T.node (farEnd e)).activeTarget? = .ok (some ρ) ∧
      ∀ j w, ChildAt T ρ j w → (T.node w).value ≤ (T.node (farEnd e)).value ∧
        (j < i → (T.node w).value < (T.node (farEnd e)).value) := by
  -- a child of the root exists: some node is not the root
  obtain ⟨x, hx, hxρ⟩ : ∃ x ∈ T.arena, x ≠ ρ := by
    by_contra! hall
    have hsub : T.arena ⊆ [ρ] := fun y hy => List.mem_singleton.2 (hall y hy)
    have hlen := (hT.linked.nodup.subperm hsub).length_le
    simp at hlen
    omega
  obtain ⟨j, w, hj, hjw⟩ := hT.exists_childAt hone hx hxρ
  obtain ⟨best, next, hbc, hres, hbest⟩ :=
    bestChild_run hT.linked hV hρ hr (List.range (T.node ρ).links.length)
      (-((1.0 : Float) / 0.0)) (-1) List.pairwise_lt_range (fun i _ => by omega)
      (fun i hi => List.mem_range.1 hi) (by decide)
  -- the search does not end where it started: that child is above minus infinity
  obtain ⟨i, -, n, rfl, ⟨e, he, rfl, hnt⟩, rfl, -⟩ : ∃ i ∈ List.range (T.node ρ).links.length,
      ∃ n, next = i ∧ ChildAt T ρ i n ∧ (T.node n).value = best ∧
        -((1.0 : Float) / 0.0) < best := by
    rcases hres with ⟨rfl, rfl⟩ | hres
    · exfalso
      have hw : w ∈ T.arena := by
        obtain ⟨e, he, rfl, -⟩ := hjw
        exact (hT.linked.holds ρ hρ e (List.mem_of_getElem? he)).far_mem
      exact Float.not_le_of_lt (hV w hw) (hbest j (List.mem_range.2 hj) w hjw).1
    · exact hres
  refine ⟨i, e, hbc, he, hnt, fun k u hku => ?_⟩
  have hklt : k < (T.node ρ).links.length := by
    obtain ⟨e', he', -, -⟩ := hku
    exact (List.getElem?_eq_some_iff.1 he').1
  obtain ⟨hle, hlt⟩ := hbest k (List.mem_range.2 hklt) u hku
  exact ⟨hle, fun h => hlt (by exact_mod_cast h)⟩

/-- **Handing the root over** to the node at the other end of the connection `e`, at place `i`
of the root `ρ`, one step after the other: the node is read, flagged root in place of `ρ`, `ρ` is
pointed at it and read afresh, holding `e` at place `i`; the new root reads as before but for its
flag. -/
theorem handOver_steps {T : ViewpointTree} (hT : TreeWF T) {ρ : Int} (hρ : ρ ∈ T.arena)
    (hroot : T.root = some (T.slots.getD ρ 0)) {i : Nat} {e : Bool × Link}
    (he : (T.node ρ).links[i]? = some e) :
    (∀ s : LocalRun, s.planner.tree = T →
      onTree (neighbor (T.node ρ) i) s = .ok (T.node (farEnd e)) s) ∧
    (∀ s : LocalRun, s.planner.tree = T →
      onTree (setRoot (T.node (farEnd e)).serial) s =
        .ok () (s.withTree (T.flagRoot ρ (farEnd e)))) ∧
    (∀ s : LocalRun, s.planner.tree = T.flagRoot ρ (farEnd e) →
      onTree (ViewpointTree.update (T.node ρ).serial fun v => { v with active := .int i }) s =
        .ok () (s.withTree (T.moveRoot ρ (farEnd e) i))) ∧
    (∀ s : LocalRun, s.planner.tree = T.moveRoot ρ (farEnd e) i →
      onTree (ViewpointTree.get (T.node ρ).serial) s = .ok ((T.moveRoot ρ (farEnd e) i).node ρ) s) ∧
    ((T.moveRoot ρ (farEnd e) i).node ρ).links[i]?.map (·.2) = some e.2 ∧
    (∀ s : LocalRun, s.planner.tree = T.moveRoot ρ (farEnd e) i →
      onTree (ViewpointTree.get (T.node (farEnd e)).serial) s =
        .ok { T.node (farEnd e) with isRoot := true } s) := by
  have hh := hT.linked.holds ρ hρ e (List.mem_of_getElem? he)
  have hs := hT.linked.stored
  refine ⟨fun s hs' => onTree_read hs' (hT.linked.symmetric.neighbor_run hρ he), fun s hs' => ?_,
    fun s hs' => ?_, fun s hs' => ?_, ?_, fun s hs' => ?_⟩
  · rw [hs.serial_eq _ hh.far_mem]
    exact onTree_run hs' (hs.setRoot_run hρ hh.far_mem hh.far_ne hroot)
  · have hrun := (hs.flagRoot hρ hh.far_mem hh.far_ne).update_node_run hρ
      (fun v => { v with active := .int i }) rfl
    rw [hs.flagRoot_node hρ hh.far_mem hρ, if_neg hh.far_ne.symm, if_pos rfl] at hrun
    rw [hs.serial_eq ρ hρ]
    exact onTree_run hs' hrun
  · refine onTree_read hs' ?_
    rw [hs.serial_eq ρ hρ]
    rfl
  · rw [moveRoot_node_of_mem hT hρ he ρ hρ, if_pos rfl]
    simp [he]
  · refine onTree_read hs' ?_
    have hn := moveRoot_node_of_mem hT hρ he _ hh.far_mem
    rw [if_neg hh.far_ne, if_pos rfl] at hn
    rw [hs.serial_eq _ hh.far_mem, get_run]
    show EStateM.Result.ok ((T.moveRoot ρ (farEnd e) i).node (farEnd e)) _ = _
    rw [hn]

/-- What selecting the next waypoint does from the run `r`, its phases then `phases`: the rounds
of rewiring, `rounds` of them, leave the tree `T₁`, whose root is `ρ`; `n`, at the other end of
the connection `c` at place `i` of the root, is the child of the root of largest value, the first
of equal ones; every connection of the root, `c` among them, has a length the settings allow;
the root moves to `n`, and the call returns the pose of `n` unless the refresh of the local quota
fails. -/
structure Advance (r : LocalRun) (phases : List String) (rounds : Nat) (T₁ : ViewpointTree)
    (ρ n : Int) (i : Nat) (c : Link) : Prop where
  rewired : rewire r.planner.settings (Nat.pow 2 64) 0
      { r with planner := { r.planner with phases := phases } } =
    .ok rounds (({ r with planner := { r.planner with phases := phases } } : LocalRun).withTree T₁)
  sameLinks : SameLinks r.planner.tree T₁
  root : ρ ∈ T₁.arena ∧ (T₁.node ρ).isRoot = true
  /-- `n` is held at place `i` of the root over `c`, and its active connection leads to the
  root. -/
  child : (∃ b, (T₁.node ρ).links[i]? = some (b, c) ∧ farEnd (b, c) = n) ∧
    (T₁.node n).activeTarget? = .ok (some ρ)
  /-- No child of the root has a larger value, nor one as large at an earlier place. -/
  best : ∀ j w, ChildAt T₁ ρ j w →
    (T₁.node w).value ≤ (T₁.node n).value ∧ (j < i → (T₁.node w).value < (T₁.node n).value)
  /-- The connections of the root, those to its children among them, have lengths the settings
  allow. -/
  lengths : ∀ e ∈ (T₁.node ρ).links, r.planner.settings.AllowsLength e.2.cost
  /-- Where the last round of rewiring changed nothing, the value recorded in `n` is the one
  `computeValue` finds. -/
  fresh : ∀ (T₀ : ViewpointTree) (r₀ : LocalRun), r₀.planner.tree = T₀ → TreeWF T₀ →
    rewireRound (T₀.arena.map T₀.node) r₀ = .ok false (r₀.withTree T₁) →
    ∃ v r', computeValue (T₁.slots.getD n 0) (r.withTree T₁) = .ok v r' ∧
      (v == (T₁.node n).value) = true
  /-- Afterwards `n` is the one root, and `c` the active connection of both its ends. -/
  moved : (∀ id ∈ T₁.arena, ((T₁.moveRoot ρ n i).node id).isRoot = true ↔ id = n) ∧
    ((T₁.moveRoot ρ n i).node ρ).activeLink? = .ok (some c) ∧
    ((T₁.moveRoot ρ n i).node n).activeLink? = .ok (some c)
  wf : TreeWF (T₁.moveRoot ρ n i)
  /-- The call returns the pose of `n`, with `c` flown, or fails in the refresh of the local
  quota, all else done. -/
  outcome :
    let r₁ : LocalRun := { r with
      planner := { r.planner with
        tree := T₁.moveRoot ρ n i
        phases := phases
        current := some c
        stats := { r.planner.stats with rewiringRounds := rounds } } }
    (∃ q, selectNext r = .ok (some (T₁.node n).pose) { r₁ with
      planner := { r₁.planner with
        stats := { r₁.planner.stats with
          localQuota := q
          newPoints := 0
          prunedPoints := 0
          waypoints := r.planner.stats.waypoints + 1 } } }) ∨
    (∃ e r₂, refreshQuota (T₁.slots.getD n 0) r₁ = .error e r₂ ∧ selectNext r = .error e r₂)

/-- **Selecting the next waypoint.** From a well-formed tree of two nodes or more, whose values
are above minus infinity and whose connections have lengths the settings allow, with a number for
the most rounds of rewiring, the selection rewires the tree, keeping its connections and root
flags, moves the root to the child of the old root of largest value (the first of equal ones),
which exists, makes the connection joining them the one flown and the active connection of both,
keeps the tree well formed, and returns the pose of the new root, unless the refresh of the local
quota fails (`Advance`). -/
theorem selectNext_advances {r : LocalRun} (hT : TreeWF r.planner.tree)
    (htwo : 2 ≤ r.planner.tree.arena.length) (hV : Valued r.planner.tree)
    (hC : r.planner.tree.Costed r.planner.settings)
    (hmax : ∃ x, r.planner.settings.maxRewiring.numeric? = some x) :
    ∃ phases rounds T₁ ρ n i c, Advance r phases rounds T₁ ρ n i c := by
  set T := r.planner.tree with hTdef
  set phases := if r.planner.phases.contains "rewire" then r.planner.phases
    else r.planner.phases ++ ["rewire"] with hphases
  set r₀ : LocalRun := { r with planner := { r.planner with phases := phases } } with hr₀
  -- the rewiring keeps the shape of the tree
  have hrepair : onTree ViewpointTree.repair r₀ = .ok 0 r₀ :=
    onTree_read rfl (hT.linked.symmetric.repair_run_of_reaches hT.reaches)
  obtain ⟨rounds, T₁, hrewire, hsame, hT₁, hV₁⟩ :=
    rewire_run r.planner.settings hmax (Nat.pow 2 64) 0 T r₀ rfl hT hV
  set r₁ : LocalRun := { r₀.withTree T₁ with planner := { (r₀.withTree T₁).planner with
    stats := { r.planner.stats with rewiringRounds := rounds } } } with hr₁
  -- the best child, and the root handed over to it
  obtain ⟨ρ, hρ, hrootρ, hone⟩ := hT₁.oneRoot
  obtain ⟨i, e, hbc, he, hnt, hbest⟩ :=
    bestChild_finds hT₁ hV₁ (hsame.arena ▸ htwo) hρ hone (r := r₁) rfl
  obtain ⟨hnb, hset, hupd, hgetρ, hcur, hgetn⟩ := handOver_steps hT₁ hρ hrootρ he
  have hh := hT₁.linked.holds ρ hρ e (List.mem_of_getElem? he)
  have hnr : (T₁.node (farEnd e)).isRoot = false := by
    cases hw : (T₁.node (farEnd e)).isRoot
    · rfl
    · exact absurd ((hone _ hh.far_mem).1 hw) hh.far_ne
  refine ⟨phases, rounds, T₁, ρ, farEnd e, i, e.2, hrewire, hsame, ⟨hρ, (hone ρ hρ).2 rfl⟩,
    ⟨⟨e.1, he, rfl⟩, hnt⟩, hbest, fun e' he' => ?_, fun T₀ r₀' hr₀' hT₀ hq => ?_,
    ⟨moveRoot_isRoot_iff hT₁ hρ hone he, (moveRoot_activeLink_old hT₁ hρ he).1,
      moveRoot_activeLink_new hT₁ hρ he hnt⟩, hT₁.moveRoot hρ hone he hrootρ, ?_⟩
  · -- the rewiring kept the connections of the root
    have hρ₀ : ρ ∈ T.arena := hsame.arena ▸ hρ
    rw [(hsame.place ρ hρ₀).links] at he'
    exact hC ρ hρ₀ e' he'
  · -- after a round that changed nothing, the value recorded is the value
    have hF := fresh_of_quiet hr₀' hT₀ hq
    obtain ⟨b, hcv, hb⟩ := computeValue_run hT₁.forest hh.far_mem hnr (r := r.withTree T₁) rfl
    exact ⟨b, _, hcv, hb.beq (hF _ hh.far_mem hnr)⟩
  · -- the run, stage by stage, up to the refresh of the local quota
    have hsize : onTree ViewpointTree.size r = .ok T.arena.length r := onTree_read rfl (size_run T)
    have hnot : ¬ (T.arena.length < 2) := by omega
    have hrp : onTree ViewpointTree.rootPoint r₁ = .ok (T₁.node ρ) r₁ :=
      onTree_read rfl (rootPoint_run hrootρ)
    have hphase : phase "rewire" r = .ok () r₀ := phase_run "rewire" r
    have hrewire' : rewire r₀.planner.settings (Nat.pow 2 64) 0 r₀ = .ok rounds (r₀.withTree T₁) :=
      hrewire
    have hcount : count (fun c => { c with rewiringRounds := rounds }) (r₀.withTree T₁) = .ok () r₁ :=
      rfl
    have hneg : ¬ ((i : Int) < 0) := by omega
    have hs₁ := hT₁.linked.stored
    intro rA
    have halter : alter (fun p => { p with
        current := ((T₁.moveRoot ρ (farEnd e) i).node ρ).links[i]?.map (·.2) })
        (r₁.withTree (T₁.moveRoot ρ (farEnd e) i)) = .ok () rA := by
      rw [alter_run, hcur]
      rfl
    cases hq : refreshQuota (T₁.slots.getD (farEnd e) 0) rA with
    | ok u r₃ =>
      left
      obtain ⟨q, rfl⟩ := refreshQuota_ok hq
      refine ⟨q, ?_⟩
      rw [← hs₁.serial_eq _ hh.far_mem] at hq
      simp only [selectNext, bind, EStateM.bind, hsize, hnot, if_false, hphase,
        hrepair, planner_run, hrewire', hcount, hrp, hbc, hneg, Int.toNat_natCast, hnb r₁ rfl,
        hset r₁ rfl, hupd (r₁.withTree (T₁.flagRoot ρ (farEnd e))) rfl, LocalRun.withTree_withTree,
        hgetρ (r₁.withTree (T₁.moveRoot ρ (farEnd e) i)) rfl, halter, hq, count_run]
      rw [hgetn _ rfl]
      rfl
    | error err r₃ =>
      right
      refine ⟨err, r₃, rfl, ?_⟩
      rw [← hs₁.serial_eq _ hh.far_mem] at hq
      simp only [selectNext, bind, EStateM.bind, hsize, hnot, if_false, hphase,
        hrepair, planner_run, hrewire', hcount, hrp, hbc, hneg, Int.toNat_natCast, hnb r₁ rfl,
        hset r₁ rfl, hupd (r₁.withTree (T₁.flagRoot ρ (farEnd e))) rfl, LocalRun.withTree_withTree,
        hgetρ (r₁.withTree (T₁.moveRoot ρ (farEnd e) i)) rfl, halter, hq]

end LocalPlanner

end Exploration
