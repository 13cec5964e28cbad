import Mathlib
import Exploration.Proofs.NearestKeys
import Exploration.Proofs.NextWaypoint

/-!
# An expansion keeps the tree well formed

An expansion either leaves the tree as it shows it (`Untouched`), with its counters not gone
back, or grafts one node onto it (`Graft`). Both keep the invariant `TreeWF`.

For a graft the argument follows the connections: those a node of the tree held it still holds,
and they still hold at both ends; the new node holds the connections it made, each to a node of
the tree, and that node holds it back after its old ones (`incoming`). The connection ids of the
new connections are those handed out since, so they neither repeat nor meet an old one. The new
connections go to distinct nodes because the index answers each of its nodes once
(`SpatialIndex.nearest_keys`): that is the one fact a graft takes from outside. A chain of the
tree keeps its steps, since a connection added after the active one does not move it, and the new
node's chain is one step longer than that of its first neighbour.

Main statements: `TreeWF.graft` and `LocalPlanner.expand_keeps_wf`.
-/

namespace Exploration

namespace Viewpoint

/-- Connections held after the active one do not change where it leads. -/
theorem activeTarget?_append {v : Viewpoint} {n : Int} (h : v.active = .int n) {p : Int}
    (hp : v.activeTarget? = .ok (some p)) (extra : List (Bool × Link)) :
    { v with links := v.links ++ extra }.activeTarget? = .ok (some p) := by
  obtain ⟨e, h0, he, hfar⟩ := (activeTarget?_eq_some h).1 hp
  have hlt := (List.getElem?_eq_some_iff.1 he).1
  refine (activeTarget?_eq_some (v := { v with links := v.links ++ extra }) h).2 ⟨e, h0, ?_, hfar⟩
  rw [List.getElem?_append_left hlt]
  exact he

/-- A viewpoint pointing at its first connection, made by it, leads to that connection's
target. -/
theorem activeTarget?_first {v : Viewpoint} {l : Link} {L : List Link} (ha : v.active = .int 0)
    (hl : v.links = (l :: L).map ((true, ·))) : v.activeTarget? = .ok (some l.target) :=
  (activeTarget?_eq_some ha).2 ⟨(true, l), le_rfl, by simp [hl], rfl⟩

end Viewpoint

namespace ViewpointTree

/-- The connections of a new viewpoint end at distinct nodes, so a node gains at most one. -/
theorem length_incoming_le {L : List Link} (hnd : (L.map (·.target)).Nodup) (id : Int) :
    (incoming L id).length ≤ 1 := by
  have hsub : ((L.filter (·.target == id)).map (·.target)).Sublist (L.map (·.target)) :=
    List.filter_sublist.map _
  have hrep : (L.filter (·.target == id)).map (·.target) =
      List.replicate (L.filter (·.target == id)).length id :=
    List.eq_replicate_iff.2 ⟨List.length_map .., fun b hb => by
      obtain ⟨x, hx, rfl⟩ := List.mem_map.1 hb
      simpa using (List.mem_filter.1 hx).2⟩
  have hle := List.nodup_replicate.1 (hrep ▸ hnd.sublist hsub)
  simpa [incoming] using hle

/-! ## A tree the expansion left as it was -/

/-- A tree whose nodes, slots, index, root and connection counter are those of a well-formed tree,
with its other counters not gone back, is well formed. -/
theorem TreeWF.of_untouched {t t' : ViewpointTree} (hw : TreeWF t) (h : Untouched t t')
    (hfresh : t.fresh ≤ t'.fresh) (hnode : t.nextNode ≤ t'.nextNode) : TreeWF t' := by
  obtain ⟨r, hr, hroot, hflag⟩ := hw.oneRoot
  refine ⟨Linked.of_agree hw.linked h.arena h.slots hnode h.nextLink hfresh
      (fun id hid => by rw [h.node id hid]; exact ⟨rfl, rfl, rfl⟩)
      (fun id hid => by rw [h.node id hid]; exact hw.linked.active_int id hid),
    ⟨r, h.arena ▸ hr, by rw [h.root, h.slots]; exact hroot, fun id hid => ?_⟩,
    ⟨h.index ▸ hw.indexed.wf, ?_⟩, fun id hid => ?_⟩
  · rw [h.arena] at hid
    rw [h.node id hid]
    exact hflag id hid
  · rw [h.index, hw.indexed.entries, h.arena]
    exact List.map_congr_left fun id hid => by rw [h.node id hid]
  · rw [h.arena] at hid
    obtain ⟨k, hk⟩ := hw.reaches id hid
    exact ⟨k, hk.transfer (fun w hw _ => h.arena ▸ hw) (fun w hw _ => by rw [h.node w hw])
      fun w hw _ _ => by rw [h.node w hw]⟩

/-! ## A grafted tree -/

namespace Graft

variable {t t' : ViewpointTree} {a : Int} {s : Nat} {L : List Link} (h : Graft t t' a s L)
include h

theorem mem_arena {id : Int} : id ∈ t'.arena ↔ id ∈ t.arena ∨ id = a := by
  simp [h.arena]

/-- The new connections carry the ids handed out since `t`. -/
theorem id_mem {l : Link} (hl : l ∈ L) : t.nextLink ≤ l.id ∧ l.id < t'.nextLink := by
  have hmem : l.id ∈ L.map (·.id) := List.mem_map_of_mem hl
  rw [h.ids, List.mem_range'_1] at hmem
  rw [h.nextLink]
  exact hmem

theorem ids_nodup : (L.map (·.id)).Nodup := by
  rw [h.ids]
  exact List.nodup_range'

/-- A node gains connections only from the new node. -/
theorem map_farEnd_incoming (id : Int) :
    (incoming L id).map farEnd = List.replicate (incoming L id).length a := by
  refine List.eq_replicate_iff.2 ⟨List.length_map .., fun x hx => ?_⟩
  obtain ⟨⟨b, l⟩, he, rfl⟩ := List.mem_map.1 hx
  obtain ⟨rfl, hl, -⟩ := mem_incoming.1 he
  simpa [farEnd] using (h.made l hl).1

/-- Every connection held in the grafted tree is an old one, held where it was, or a new one. -/
theorem link_cases {id : Int} (hid : id ∈ t'.arena) {e : Bool × Link}
    (he : e ∈ (t'.node id).links) : (id ∈ t.arena ∧ e ∈ (t.node id).links) ∨ e.2 ∈ L := by
  rcases h.mem_arena.1 hid with hid | rfl
  · rw [h.old id hid, List.mem_append] at he
    rcases he with he | he
    · exact .inl ⟨hid, he⟩
    · exact .inr (mem_incoming.1 he).2.1
  · rw [h.own] at he
    obtain ⟨l, hl, rfl⟩ := List.mem_map.1 he
    exact .inr hl

section Linked

variable (hl : Linked t)
include hl

theorem not_mem : a ∉ t.arena := (h.grown hl.ahead).fresh

theorem slot_old {id : Int} (hid : id ∈ t.arena) : t'.slots.getD id 0 = t.slots.getD id 0 := by
  have hne : a ≠ id := fun he => h.not_mem hl (he ▸ hid)
  simp [h.slots, Std.HashMap.getD_insert, hne]

/-- An old connection still holds at both ends. -/
theorem holds_old {id : Int} (hid : id ∈ t.arena) {e : Bool × Link} (he : e ∈ (t.node id).links) :
    Holds t' id e := by
  have hh := hl.holds id hid e he
  refine ⟨hh.near, h.mem_arena.2 (.inl hh.far_mem), hh.far_ne, ?_, ?_⟩
  · rw [h.old _ hh.far_mem]
    exact List.mem_append_left _ hh.mirror
  · have := hh.id_lt
    rw [h.nextLink]
    omega

/-- A connection a node of the tree gains is held back by the new node. -/
theorem holds_incoming {id : Int} (hid : id ∈ t.arena) {e : Bool × Link}
    (he : e ∈ incoming L id) : Holds t' id e := by
  obtain ⟨b, l⟩ := e
  obtain ⟨rfl, hlL, htar⟩ := mem_incoming.1 he
  have hpar := (h.made l hlL).1
  refine ⟨by simpa [nearEnd] using htar, ?_, ?_, ?_, (h.id_mem hlL).2⟩
  · simp [farEnd, hpar, h.mem_arena]
  · simp only [farEnd, hpar, Bool.false_eq_true, if_false]
    rintro rfl
    exact h.not_mem hl hid
  · simp [farEnd, hpar, h.own, hlL]

/-- A connection the new node made is held back at its target. -/
theorem holds_own {e : Bool × Link} (he : e ∈ (t'.node a).links) : Holds t' a e := by
  rw [h.own] at he
  obtain ⟨l, hlL, rfl⟩ := List.mem_map.1 he
  obtain ⟨hpar, htar⟩ := h.made l hlL
  refine ⟨by simp [nearEnd, hpar], h.mem_arena.2 (.inl (by simpa [farEnd] using htar)), ?_, ?_,
    (h.id_mem hlL).2⟩
  · simp only [farEnd, if_true]
    rintro rfl
    exact h.not_mem hl htar
  · simp only [farEnd, if_true, Bool.not_true]
    rw [h.old _ htar]
    exact List.mem_append_right _ (mem_incoming.2 ⟨rfl, hlL, rfl⟩)

theorem holds {id : Int} (hid : id ∈ t'.arena) {e : Bool × Link} (he : e ∈ (t'.node id).links) :
    Holds t' id e := by
  rcases h.mem_arena.1 hid with hid | rfl
  · rw [h.old id hid, List.mem_append] at he
    rcases he with he | he
    · exact h.holds_old hl hid he
    · exact h.holds_incoming hl hid he
  · exact h.holds_own hl he

/-- Connection ids still name one connection: an old id is below every new one. -/
theorem same_id : ∀ b₁ ∈ t'.arena, ∀ b₂ ∈ t'.arena, ∀ e ∈ (t'.node b₁).links,
    ∀ e' ∈ (t'.node b₂).links, e.2.id = e'.2.id → e.2 = e'.2 := by
  intro b₁ hb₁ b₂ hb₂ e he e' he' hid
  rcases h.link_cases hb₁ he with ⟨hb₁, he⟩ | hl₁ <;>
    rcases h.link_cases hb₂ he' with ⟨hb₂, he'⟩ | hl₂
  · exact hl.same_id b₁ hb₁ b₂ hb₂ e he e' he' hid
  · have := (hl.holds b₁ hb₁ e he).id_lt
    have := (h.id_mem hl₂).1
    omega
  · have := (hl.holds b₂ hb₂ e' he').id_lt
    have := (h.id_mem hl₁).1
    omega
  · exact List.inj_on_of_nodup_map h.ids_nodup hl₁ hl₂ hid

/-- No two connections of a node lead to the same node, when the new connections go to distinct
nodes. -/
theorem far_nodup (hnd : (L.map (·.target)).Nodup) :
    ∀ id ∈ t'.arena, ((t'.node id).links.map farEnd).Nodup := by
  intro id hid
  rcases h.mem_arena.1 hid with hid | rfl
  · -- the old connections lead into `t`, the one gained to the new node
    rw [h.old id hid, List.map_append, List.nodup_append, h.map_farEnd_incoming]
    refine ⟨hl.far_nodup id hid, List.nodup_replicate.2 (length_incoming_le hnd id), ?_⟩
    intro x hx y hy hxy
    obtain ⟨e, he, rfl⟩ := List.mem_map.1 hx
    have hfar : farEnd e = a := hxy.trans (List.eq_of_mem_replicate hy)
    exact h.not_mem hl (hfar ▸ (hl.holds id hid e he).far_mem)
  · rw [h.own, List.map_map]
    simpa [Function.comp_def, farEnd] using hnd

theorem linked (hnd : (L.map (·.target)).Nodup) : Linked t' where
  nodup := by
    rw [h.arena, List.nodup_append]
    exact ⟨hl.nodup, List.nodup_singleton a, fun x hx y hy hxy =>
      h.not_mem hl (List.eq_of_mem_singleton hy ▸ hxy ▸ hx)⟩
  contains_iff id := by
    rw [h.slots, h.mem_arena, Std.HashMap.contains_insert, Bool.or_eq_true, hl.contains_iff,
      beq_iff_eq, eq_comm, or_comm]
  serial_eq id hid := by
    rcases h.mem_arena.1 hid with hid | rfl
    · rw [h.old id hid, h.slot_old hl hid]
      exact hl.serial_eq id hid
    · simp [h.serial, h.slots]
  id_eq id hid := by
    rcases h.mem_arena.1 hid with hid | rfl
    · rw [h.old id hid]
      exact hl.id_eq id hid
    · exact h.id
  slot_lt id hid := by
    have hfresh := h.fresh
    rcases h.mem_arena.1 hid with hid | rfl
    · rw [h.slot_old hl hid]
      exact lt_trans (hl.slot_lt id hid) hfresh
    · simpa [h.slots, h.slot] using hfresh
  id_range id hid := by
    rw [h.nextNode]
    rcases h.mem_arena.1 hid with hid | rfl
    · have := hl.id_range id hid
      omega
    · -- the new node's first neighbour is a node of the tree, below the next node id
      obtain ⟨l, L', rfl⟩ := List.exists_cons_of_ne_nil h.nonempty
      have := hl.id_range _ (h.made l List.mem_cons_self).2
      rw [h.next]
      omega
  active_int id hid := by
    rcases h.mem_arena.1 hid with hid | rfl
    · rw [h.old id hid]
      exact hl.active_int id hid
    · exact ⟨0, h.active⟩
  holds id hid e he := h.holds hl hid he
  same_id := h.same_id hl
  far_nodup := h.far_nodup hl hnd

theorem oneRoot (ho : OneRoot t) : OneRoot t' := by
  obtain ⟨r, hr, hroot, hflag⟩ := ho
  refine ⟨r, h.mem_arena.2 (.inl hr), by rw [h.root, h.slot_old hl hr]; exact hroot,
    fun id hid => ?_⟩
  rcases h.mem_arena.1 hid with hid | rfl
  · rw [h.old id hid]
    exact hflag id hid
  · -- the new node is neither flagged root nor the root
    simp only [h.isRoot, Bool.false_eq_true, false_iff]
    rintro rfl
    exact h.not_mem hl hr

/-- A chain of the tree keeps its steps in the grafted tree. -/
theorem chainIn {S : Int → Prop} {u : Int} {k : Nat} (hc : ChainIn t S u k) : ChainIn t' S u k := by
  induction hc with
  | root hid hS hr => exact .root (h.mem_arena.2 (.inl hid)) hS (by rw [h.old _ hid]; exact hr)
  | step hid hS hr hp _ ih =>
    obtain ⟨n, hn⟩ := hl.active_int _ hid
    refine .step (h.mem_arena.2 (.inl hid)) hS (by rw [h.old _ hid]; exact hr) ?_ ih
    rw [h.old _ hid]
    exact Viewpoint.activeTarget?_append hn hp _

end Linked

theorem indexed (hi : Indexed t) : Indexed t' := by
  obtain ⟨hwf, hentries⟩ := SpatialIndex.insert_spec hi.wf h.index
  refine ⟨hwf, ?_⟩
  rw [hentries, hi.entries, h.arena, List.map_append, List.map_singleton]
  congr 1
  exact List.map_congr_left fun id hid => by rw [h.old id hid]; rfl

theorem reaches (hw : TreeWF t) : ∀ id ∈ t'.arena, ∃ k, ReachesRoot t' id k := by
  intro id hid
  rcases h.mem_arena.1 hid with hid | rfl
  · obtain ⟨k, hk⟩ := hw.reaches id hid
    exact ⟨k, h.chainIn hw.linked hk⟩
  · -- the new node points at its first neighbour, whose chain reaches the root
    obtain ⟨l, L', hL⟩ := List.exists_cons_of_ne_nil h.nonempty
    have htar := (h.made l (hL ▸ List.mem_cons_self)).2
    obtain ⟨k, hk⟩ := hw.reaches _ htar
    exact ⟨k + 1, .step hid trivial h.isRoot
      (Viewpoint.activeTarget?_first h.active (hL ▸ h.own)) (h.chainIn hw.linked hk)⟩

end Graft

/-- **A grafted tree is well formed** when the new node's connections go to distinct nodes. -/
theorem TreeWF.graft {t t' : ViewpointTree} {a : Int} {s : Nat} {L : List Link} (hw : TreeWF t)
    (h : Graft t t' a s L) (hnd : (L.map (·.target)).Nodup) : TreeWF t' where
  linked := h.linked hw.linked hnd
  oneRoot := h.oneRoot hw.linked hw.oneRoot
  indexed := h.indexed hw.indexed
  reaches := h.reaches hw

end ViewpointTree

namespace LocalPlanner

open ViewpointTree

/-- **An expansion keeps the tree well formed**, whether it grafts a node or not: the index
answers each node once, so the new connections go to distinct nodes. -/
theorem expand_keeps_wf (sc : Scene) {r r' : LocalRun} {b : Bool} (hw : TreeWF r.planner.tree)
    (h : expand sc r = .ok b r') : TreeWF r'.planner.tree := by
  obtain ⟨-, ⟨-, hkept, hfresh, hnode, -⟩ | ⟨-, ⟨a, s, L, hg, ⟨q, k, answer, hnear, hsub⟩, -⟩, -⟩⟩ :=
    expand_grafts sc hw.linked.ahead h
  · exact hw.of_untouched hkept hfresh hnode
  · have hkeys : (r.planner.tree.index.entries.map (·.1)).Nodup := by
      rw [hw.indexed.entries, List.map_map]
      simpa [Function.comp_def] using hw.linked.nodup
    exact hw.graft hg ((SpatialIndex.nearest_keys hw.indexed.wf hkeys hnear).1.sublist hsub)

end LocalPlanner

end Exploration
