import Mathlib
import Exploration.Proofs.IndexLive
import Exploration.Proofs.TreeSearch

/-!
# Pruning the viewpoint tree

`prune` drops every node that no connection joins to a root, drops their slots, and rebuilds the
index from the nodes kept. On a tree whose connections are held at both ends and that has one
root, the nodes kept are exactly those joined to the root (`JoinedIn`), in their order, each
reading as before (`Kept`); the count returned is the number of nodes dropped. The tree kept is
well formed again (`Linked`, `OneRoot`, `Indexed`) and all its nodes are joined to its root.

The index rebuild refuses a point with a coordinate that is not finite, so pruning fails exactly
when a node kept has such a position (`Linked.prune_run`, `Linked.prune_run_error`).
-/

namespace Exploration

namespace SpatialIndex

variable {α : Type}

/-- A rebuild from points of three coordinates fails exactly on a coordinate that is not
finite. -/
theorem rebuild_snd_eq_none_iff {s : SpatialIndex α} {items : List (α × List Float)}
    (hlen : ∀ p ∈ items, p.2.length = 3) :
    (s.rebuild items).2 = none ↔ ∀ p ∈ items, finitePoint p.2 = true := by
  cases items with
  | nil => simp [rebuild, build]
  | cons p rest =>
    have hp := hlen p (List.mem_cons_self ..)
    have hrest : (rest.map (·.2)).all (·.length == p.2.length) = true := by
      simp only [List.all_map, List.all_eq_true]
      intro q hq
      simp [hp, hlen q (List.mem_cons_of_mem _ hq)]
    have hne : p.2.isEmpty = false := by
      rw [List.isEmpty_eq_false_iff_exists_mem]
      exact List.exists_mem_of_length_pos (by omega)
    simp only [rebuild, build, List.map_cons, List.isEmpty_cons, Bool.false_eq_true, if_false,
      unsearchable, hrest, Bool.not_true, hne, List.all_cons, List.all_map]
    split <;> simp_all [Function.comp_def, List.all_eq_true] <;> grind

end SpatialIndex

/-- Erasing keys one after another leaves a key exactly when it was not erased. -/
theorem foldl_erase_getElem? (gone : List Int) (m : Std.HashMap Int Nat) (id : Int) :
    (gone.foldl (fun m id => m.erase id) m)[id]? = if id ∈ gone then none else m[id]? := by
  induction gone generalizing m with
  | nil => simp
  | cons x xs ih =>
    rw [List.foldl_cons, ih, Std.HashMap.getElem?_erase]
    by_cases hx : x = id
    · subst hx
      simp
    · by_cases hid : id ∈ xs
      · simp [hid]
      · simp [hid, hx, Ne.symm hx]

namespace ViewpointTree

/-- `t'` keeps the nodes of `t` that satisfy `P`, in order, each reading as before, with the same
root and counters; a node id has a slot in `t'` exactly when it is kept. -/
structure Kept (t t' : ViewpointTree) (P : Int → Prop) : Prop where
  sublist : t'.arena.Sublist t.arena
  mem_iff : ∀ id, id ∈ t'.arena ↔ id ∈ t.arena ∧ P id
  contains_iff : ∀ id, t'.slots.contains id = true ↔ id ∈ t'.arena
  node : ∀ id ∈ t'.arena, t'.node id = t.node id
  slot : ∀ id ∈ t'.arena, t'.slots.getD id 0 = t.slots.getD id 0
  root : t'.root = t.root
  nextNode : t'.nextNode = t.nextNode
  nextLink : t'.nextLink = t.nextLink
  fresh : t'.fresh = t.fresh

namespace Kept

variable {t t' : ViewpointTree} {P : Int → Prop}

/-- Keeping a set of nodes closed under the connections keeps the connections well formed. -/
theorem linked (ht : Linked t) (h : Kept t t' P)
    (hclosed : ∀ id ∈ t.arena, P id → ∀ e ∈ (t.node id).links, P (farEnd e)) : Linked t' := by
  have hmem : ∀ {id}, id ∈ t'.arena → id ∈ t.arena := fun hid => ((h.mem_iff _).1 hid).1
  refine ⟨ht.nodup.sublist h.sublist, h.contains_iff, fun id hid => ?_, fun id hid => ?_,
    fun id hid => ?_, fun id hid => ?_, fun id hid => ?_, fun id hid e he => ?_,
    fun a ha b hb e he e' he' => ?_, fun id hid => ?_⟩
  · rw [h.node id hid, h.slot id hid]
    exact ht.serial_eq id (hmem hid)
  · rw [h.node id hid]
    exact ht.id_eq id (hmem hid)
  · rw [h.slot id hid, h.fresh]
    exact ht.slot_lt id (hmem hid)
  · rw [h.nextNode]
    exact ht.id_range id (hmem hid)
  · rw [h.node id hid]
    exact ht.active_int id (hmem hid)
  · rw [h.node id hid] at he
    have hh := ht.holds id (hmem hid) e he
    have hfar : farEnd e ∈ t'.arena :=
      (h.mem_iff _).2 ⟨hh.far_mem, hclosed id (hmem hid) ((h.mem_iff id).1 hid).2 e he⟩
    exact ⟨hh.near, hfar, hh.far_ne, by rw [h.node _ hfar]; exact hh.mirror,
      by rw [h.nextLink]; exact hh.id_lt⟩
  · rw [h.node a ha] at he
    rw [h.node b hb] at he'
    exact ht.same_id a (hmem ha) b (hmem hb) e he e' he'
  · rw [h.node id hid]
    exact ht.far_nodup id (hmem hid)

/-- Keeping the root keeps it the one root. -/
theorem oneRoot (ht : OneRoot t) (h : Kept t t' P)
    (hroot : ∀ id ∈ t.arena, (t.node id).isRoot = true → P id) : OneRoot t' := by
  obtain ⟨r, hr, hrs, hflag⟩ := ht
  have hr' : r ∈ t'.arena := (h.mem_iff r).2 ⟨hr, hroot r hr ((hflag r hr).2 rfl)⟩
  refine ⟨r, hr', by rw [h.root, h.slot r hr']; exact hrs, fun id hid => ?_⟩
  rw [h.node id hid]
  exact hflag id ((h.mem_iff id).1 hid).1

/-- Joined nodes reach the root in the tree kept, when it keeps every joined node. -/
theorem joinedIn (h : Kept t t' (JoinedIn t fun _ => True)) {id : Int}
    (hj : JoinedIn t (fun _ => True) id) : JoinedIn t' (fun _ => True) id := by
  have hkept : ∀ {w}, w ∈ t.arena → JoinedIn t (fun _ => True) w → w ∈ t'.arena :=
    fun hw hjw => (h.mem_iff _).2 ⟨hw, hjw⟩
  induction hj with
  | root hid _ hr =>
    have hmem := hkept hid (.root hid trivial hr)
    exact .root hmem trivial (by rw [h.node _ hmem]; exact hr)
  | step hid _ he hj' ih =>
    have hmem := hkept hid (.step hid trivial he hj')
    exact .step hmem trivial (by rw [h.node _ hmem]; exact he) ih

end Kept

/-- The tree keeping the nodes of `S`: the others leave the arena and lose their slots. -/
def keepOnly (t : ViewpointTree) (S : List Int) : ViewpointTree :=
  { t with arena := t.arena.filter S.contains,
           slots := (t.arena.filter fun id => !S.contains id).foldl (fun m id => m.erase id) t.slots }

namespace Linked

variable {t : ViewpointTree} (h : Linked t)
include h

/-- A node joined to a root joins the other ends of its connections: each holds the connection
back. -/
theorem joinedIn_farEnd {id : Int} (hid : id ∈ t.arena) (hj : JoinedIn t (fun _ => True) id)
    {e : Bool × Link} (he : e ∈ (t.node id).links) : JoinedIn t (fun _ => True) (farEnd e) := by
  have hh := h.holds id hid e he
  refine .step hh.far_mem trivial hh.mirror ?_
  rw [farEnd_flip, hh.near]
  exact hj

/-- **Rebuilding the index** from the nodes of the tree: it fails exactly on a node whose position
has a coordinate that is not finite, and otherwise holds the nodes in order at their positions. -/
theorem rebuildIndex_run :
    ((∀ id ∈ t.arena, SpatialIndex.finitePoint (t.node id).position.toList = true) →
      ∃ idx, rebuildIndex t = .ok () { t with index := idx } ∧ Indexed { t with index := idx }) ∧
    ((∃ id ∈ t.arena, SpatialIndex.finitePoint (t.node id).position.toList = false) →
      ∃ e t', rebuildIndex t = .error e t') := by
  have hitems : (t.arena.map t.node).map (fun v => (v.id, v.position.toList)) =
      t.arena.map fun id => (id, (t.node id).position.toList) := by
    rw [List.map_map]
    exact List.map_congr_left fun id hid => by simp [h.id_eq id hid]
  have hlen : ∀ p ∈ t.arena.map (fun id => (id, (t.node id).position.toList)), p.2.length = 3 := by
    simp [Vec3.toList]
  have hiff := SpatialIndex.rebuild_snd_eq_none_iff (s := t.index) hlen
  simp only [List.forall_mem_map] at hiff
  rcases hreb : t.index.rebuild (t.arena.map fun id => (id, (t.node id).position.toList)) with
    ⟨idx, err⟩
  rw [hreb] at hiff
  cases err with
  | none =>
    have hrun : rebuildIndex t = .ok () { t with index := idx } := by
      simp [rebuildIndex, bind, EStateM.bind, MonadState.get, getThe, MonadStateOf.get,
        EStateM.get, hitems, hreb, set, EStateM.set, pure, EStateM.pure]
    obtain ⟨hwf, hentries⟩ := SpatialIndex.rebuild_spec hreb
    refine ⟨fun _ => ⟨idx, hrun, hwf, ?_⟩, fun hbad => ?_⟩
    · rw [hentries]
      rfl
    · obtain ⟨id, hid, hfin⟩ := hbad
      rw [hiff.1 rfl id hid] at hfin
      cases hfin
  | some e =>
    have hrun : rebuildIndex t = .error e { t with index := idx } := by
      simp [rebuildIndex, bind, EStateM.bind, MonadState.get, getThe, MonadStateOf.get,
        EStateM.get, hitems, hreb, set, EStateM.set, throw, throwThe, MonadExceptOf.throw,
        EStateM.throw]
    refine ⟨fun hfin => absurd (hiff.2 hfin) (by simp), fun _ => ⟨e, _, hrun⟩⟩

/-- Keeping the nodes of `S` keeps them, in order, each reading as before. -/
theorem kept_keepOnly {S : List Int} {P : Int → Prop} (hS : ∀ w, w ∈ S ↔ P w) :
    Kept t (t.keepOnly S) P := by
  -- a node keeps its slot exactly when it is not dropped
  have hslot : ∀ id, (t.keepOnly S).slots[id]? = if id ∈ t.arena ∧ id ∉ S then none else t.slots[id]? := by
    intro id
    simp [keepOnly, foldl_erase_getElem?]
  have hmem : ∀ id, id ∈ (t.keepOnly S).arena ↔ id ∈ t.arena ∧ id ∈ S := fun id => by
    simp [keepOnly]
  have hgetD : ∀ id ∈ (t.keepOnly S).arena, (t.keepOnly S).slots.getD id 0 = t.slots.getD id 0 := by
    intro id hid
    have := (hmem id).1 hid
    rw [Std.HashMap.getD_eq_getD_getElem?, hslot, if_neg (fun h' => h'.2 this.2),
      ← Std.HashMap.getD_eq_getD_getElem?]
  refine ⟨List.filter_sublist, fun id => by rw [hmem, hS], fun id => ?_,
    fun id hid => by simp only [node, hgetD id hid]; rfl, hgetD, rfl, rfl, rfl, rfl⟩
  rw [Std.HashMap.contains_eq_isSome_getElem?, hslot, hmem]
  by_cases ha : id ∈ t.arena
  · by_cases hs : id ∈ S <;> simp [ha, hs, (h.contains_iff id).2 ha]
  · simp [ha, h.getElem?_slots_eq_none ha]

/-- Pruning searches the nodes joined to a root, keeps them and rebuilds the index. -/
theorem prune_eq : ∃ S : List Int, (∀ w, w ∈ S ↔ JoinedIn t (fun _ => True) w) ∧
    prune t = (do rebuildIndex; return (t.arena.filter fun id => !S.contains id).length)
      (t.keepOnly S) := by
  obtain ⟨S, hS, -, hiff⟩ := h.symmetric.reached_run false
  refine ⟨S, fun w => (hiff w).trans h.symmetric.fromRoot_false_iff, ?_⟩
  simp only [prune, bind, EStateM.bind, hS, MonadState.get, getThe, MonadStateOf.get, EStateM.get,
    set, EStateM.set]
  rfl

/-- **Pruning** keeps exactly the nodes joined to the root, in order, each reading as before, and
returns the number dropped; the tree kept is well formed, with every node joined to its root.
It succeeds when every node kept has a finite position. -/
theorem prune_run (hO : OneRoot t)
    (hfin : ∀ id ∈ t.arena, JoinedIn t (fun _ => True) id →
      SpatialIndex.finitePoint (t.node id).position.toList = true) :
    ∃ t', prune t = .ok (t.arena.length - t'.arena.length) t' ∧
      Kept t t' (JoinedIn t fun _ => True) ∧ Linked t' ∧ OneRoot t' ∧ Indexed t' ∧
      ∀ id ∈ t'.arena, JoinedIn t' (fun _ => True) id := by
  obtain ⟨S, hS, hrun⟩ := h.prune_eq
  have hk : Kept t (t.keepOnly S) (JoinedIn t fun _ => True) := h.kept_keepOnly hS
  have hL : Linked (t.keepOnly S) :=
    hk.linked h fun id hid hj e he => h.joinedIn_farEnd hid hj he
  obtain ⟨idx, hidx, hI⟩ := hL.rebuildIndex_run.1 fun id hid => by
    obtain ⟨hid', hj⟩ := (hk.mem_iff id).1 hid
    rw [hk.node id hid]
    exact hfin id hid' hj
  have hk' : Kept t { t.keepOnly S with index := idx } (JoinedIn t fun _ => True) :=
    ⟨hk.sublist, hk.mem_iff, hk.contains_iff, hk.node, hk.slot, hk.root, hk.nextNode,
      hk.nextLink, hk.fresh⟩
  refine ⟨{ t.keepOnly S with index := idx }, ?_, hk', hk'.linked h
    fun id hid hj e he => h.joinedIn_farEnd hid hj he, hk'.oneRoot hO fun id hid hr => .root hid trivial hr,
    hI, fun id hid => hk'.joinedIn ((hk'.mem_iff id).1 hid).2⟩
  have hlen := @List.length_eq_length_filter_add _ t.arena S.contains
  rw [hrun]
  simp only [bind, EStateM.bind, hidx, pure, EStateM.pure]
  congr 1
  simp only [keepOnly]
  omega

/-- Pruning fails when a node it keeps has a position that is not finite. -/
theorem prune_run_error (hbad : ∃ id ∈ t.arena, JoinedIn t (fun _ => True) id ∧
      SpatialIndex.finitePoint (t.node id).position.toList = false) :
    ∃ e t', prune t = .error e t' := by
  obtain ⟨S, hS, hrun⟩ := h.prune_eq
  have hk : Kept t (t.keepOnly S) (JoinedIn t fun _ => True) := h.kept_keepOnly hS
  have hL : Linked (t.keepOnly S) :=
    hk.linked h fun id hid hj e he => h.joinedIn_farEnd hid hj he
  obtain ⟨id, hid, hj, hfin⟩ := hbad
  have hkept : id ∈ (t.keepOnly S).arena := (hk.mem_iff id).2 ⟨hid, hj⟩
  obtain ⟨e, t', hidx⟩ := hL.rebuildIndex_run.2 ⟨id, hkept, by rw [hk.node id hkept]; exact hfin⟩
  exact ⟨e, t', by rw [hrun]; simp [bind, EStateM.bind, hidx]⟩

end Linked

end ViewpointTree

end Exploration
