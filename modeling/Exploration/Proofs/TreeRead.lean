import Mathlib
import Exploration.Proofs.TreeInvariant

/-!
# Reading a viewpoint tree

The look-ups of the tree (`slot`, `point`, `point?`, `neighbor`, `parent?`, `children`) read the
tree and change nothing. On a tree whose arena, slots and viewpoints agree (`Stored`) they return
the viewpoint of a node id through `ViewpointTree.node`, and they fail only where the tree lacks
what they look for. `Symmetric` adds what the searches and the repair rely on: whole-number
active values and connections held at both ends. `Forest` adds what value propagation relies on:
connections held at both ends, at most one connection between two nodes, and an active chain from
every node that is not the root to a node flagged root.

Main statements: `children_run` (the children a node finds are the nodes at the other ends of
its connections whose active connection leads back to it, in the order of its connections,
`kidIds`), `mem_kidIds` and `parent?_run`.
-/

namespace Exploration

/-- The far end of a connection, seen from its other end, is its near end. -/
@[simp] theorem farEnd_flip (e : Bool × Link) : farEnd (!e.1, e.2) = nearEnd e := by
  obtain ⟨b, l⟩ := e
  cases b <;> rfl

/-- Where the active connection leads somewhere, it is a connection held, leading there. -/
theorem Viewpoint.activeLink?_of_target {v : Viewpoint} {p : Int}
    (h : v.activeTarget? = .ok (some p)) :
    ∃ e ∈ v.links, v.activeLink? = .ok (some e.2) ∧ farEnd e = p := by
  unfold Viewpoint.activeTarget? at h
  unfold Viewpoint.activeLink?
  cases hi : v.activeIndex? with
  | error err => simp [hi, bind, Except.bind] at h
  | ok i =>
    simp only [hi, bind, Except.bind, pure, Except.pure, Except.ok.injEq,
      Viewpoint.connectedId?_eq] at h ⊢
    obtain ⟨i, rfl, hp⟩ := Option.bind_eq_some_iff.1 h
    obtain ⟨e, he, rfl⟩ := Option.map_eq_some_iff.1 hp
    exact ⟨e, List.mem_of_getElem? he, by simp [he], rfl⟩

/-- Reading a list place by place, `filterMap` reads the list. -/
theorem filterMap_range_getElem? {α β : Type} (f : α → Option β) (l : List α) :
    (List.range l.length).filterMap (fun i => l[i]?.bind f) = l.filterMap f := by
  induction l using List.reverseRecOn with
  | nil => rfl
  | append_singleton l a ih =>
    rw [List.length_append, List.length_singleton, List.range_succ, List.filterMap_append,
      List.filterMap_append, ← ih]
    congr 1
    · apply List.filterMap_congr
      intro i hi
      rw [List.getElem?_append_left (List.mem_range.1 hi)]
    · simp [List.filterMap_cons]

namespace ViewpointTree

/-- The arena, the slots and the viewpoints agree: node ids are listed once, a node id has a slot
exactly when it is in the arena, and the viewpoint in a node's slot carries that slot and that
node id. -/
structure Stored (t : ViewpointTree) : Prop where
  nodup : t.arena.Nodup
  contains_iff : ∀ id, t.slots.contains id = true ↔ id ∈ t.arena
  serial_eq : ∀ id ∈ t.arena, (t.node id).serial = t.slots.getD id 0
  id_eq : ∀ id ∈ t.arena, (t.node id).id = id

/-- A stored tree whose connections are held at both ends, no two of a node's connections lead to
the same node, and every node not flagged root has an active chain to a node flagged root. -/
structure Forest (t : ViewpointTree) : Prop extends Stored t where
  near : ∀ id ∈ t.arena, ∀ e ∈ (t.node id).links, nearEnd e = id
  far_mem : ∀ id ∈ t.arena, ∀ e ∈ (t.node id).links, farEnd e ∈ t.arena
  mirror : ∀ id ∈ t.arena, ∀ e ∈ (t.node id).links, (!e.1, e.2) ∈ (t.node (farEnd e)).links
  far_nodup : ∀ id ∈ t.arena, ((t.node id).links.map farEnd).Nodup
  reaches : ∀ id ∈ t.arena, (t.node id).isRoot = false → ∃ k, ReachesRoot t id k

/-- A stored tree whose active values are whole numbers and whose connections are held at both
ends: each starts or ends at the node that holds it, as its flag says, and its other end is a node
of the tree holding it with the opposite flag. The searches and the repair rely on no more. -/
structure Symmetric (t : ViewpointTree) : Prop extends Stored t where
  active_int : ∀ id ∈ t.arena, ∃ n : Int, (t.node id).active = .int n
  near : ∀ id ∈ t.arena, ∀ e ∈ (t.node id).links, nearEnd e = id
  far_mem : ∀ id ∈ t.arena, ∀ e ∈ (t.node id).links, farEnd e ∈ t.arena
  mirror : ∀ id ∈ t.arena, ∀ e ∈ (t.node id).links, (!e.1, e.2) ∈ (t.node (farEnd e)).links

theorem Linked.stored {t : ViewpointTree} (h : Linked t) : Stored t :=
  ⟨h.nodup, h.contains_iff, h.serial_eq, h.id_eq⟩

theorem Linked.symmetric {t : ViewpointTree} (h : Linked t) : Symmetric t where
  toStored := h.stored
  active_int := h.active_int
  near id hid e he := (h.holds id hid e he).near
  far_mem id hid e he := (h.holds id hid e he).far_mem
  mirror id hid e he := (h.holds id hid e he).mirror

theorem TreeWF.forest {t : ViewpointTree} (h : TreeWF t) : Forest t where
  toStored := h.linked.stored
  near id hid e he := (h.linked.holds id hid e he).near
  far_mem id hid e he := (h.linked.holds id hid e he).far_mem
  mirror id hid e he := (h.linked.holds id hid e he).mirror
  far_nodup := h.linked.far_nodup
  reaches id hid _ := h.reaches id hid

/-- The node an active connection leads to, as a truth value on the result of `activeTarget?`. -/
def leadsTo (w : Viewpoint) (x : Int) : Bool :=
  match w.activeTarget? with
  | .ok (some p) => p == x
  | _ => false

theorem leadsTo_iff {w : Viewpoint} {x : Int} : leadsTo w x = true ↔ w.activeTarget? = .ok (some x) := by
  unfold leadsTo
  split <;> simp_all

/-- Node `w` is a child of node `x`: a node of the tree not flagged root whose active connection
leads to `x`. -/
def IsChild (t : ViewpointTree) (x w : Int) : Prop :=
  w ∈ t.arena ∧ (t.node w).isRoot = false ∧ (t.node w).activeTarget? = .ok (some x)

/-- The node ids of the children of node `x`, in the order of its connections. -/
def kidIds (t : ViewpointTree) (x : Int) : List Int :=
  ((t.node x).links.map farEnd).filter fun w => !(t.node w).isRoot && leadsTo (t.node w) x

namespace Stored

variable {t : ViewpointTree} (h : Stored t)
include h

theorem getElem?_slots {id : Int} (hid : id ∈ t.arena) :
    t.slots[id]? = some (t.slots.getD id 0) :=
  Std.HashMap.getElem?_eq_some_getD_of_contains ((h.contains_iff id).2 hid)

theorem getElem?_slots_eq_none {id : Int} (hid : id ∉ t.arena) : t.slots[id]? = none :=
  Std.HashMap.getElem?_eq_none_of_contains_eq_false (by
    cases hc : t.slots.contains id
    · rfl
    · exact absurd ((h.contains_iff id).1 hc) hid)

theorem slot_run {id : Int} (hid : id ∈ t.arena) : slot id t = .ok (t.slots.getD id 0) t := by
  simp [slot, h.getElem?_slots hid, bind, EStateM.bind, MonadState.get, getThe, MonadStateOf.get,
    EStateM.get, pure, EStateM.pure]

theorem point_run {id : Int} (hid : id ∈ t.arena) : point id t = .ok (t.node id) t := by
  simp only [point, bind, EStateM.bind, h.slot_run hid, get_run]
  rfl

theorem point?_run {id : Int} (hid : id ∈ t.arena) : point? id t = .ok (some (t.node id)) t := by
  simp [point?, h.getElem?_slots hid, bind, EStateM.bind, MonadState.get, getThe, MonadStateOf.get,
    EStateM.get, pure, EStateM.pure, node]

theorem point?_run_of_not_mem {id : Int} (hid : id ∉ t.arena) : point? id t = .ok none t := by
  simp [point?, h.getElem?_slots_eq_none hid, bind, EStateM.bind, MonadState.get, getThe,
    MonadStateOf.get, EStateM.get, pure, EStateM.pure]

/-- The parent of a node not flagged root is the node its active connection leads to. -/
theorem parent?_run {id p : Int} (hr : (t.node id).isRoot = false)
    (hp : (t.node id).activeTarget? = .ok (some p)) (hpm : p ∈ t.arena) :
    parent? (t.node id) t = .ok (some (t.node p)) t := by
  simp only [parent?, hr, hp, liftExcept, Bool.false_eq_true, if_false, bind, EStateM.bind,
    pure, EStateM.pure]
  exact h.point?_run hpm

end Stored

namespace Forest

variable {t : ViewpointTree} (h : Forest t)
include h

/-- A node not flagged root leads on, through a connection it holds, to a node of the tree. -/
theorem exists_target {id : Int} (hid : id ∈ t.arena) (hr : (t.node id).isRoot = false) :
    ∃ p, (t.node id).activeTarget? = .ok (some p) ∧ p ∈ t.arena := by
  obtain ⟨k, hk⟩ := h.reaches id hid hr
  cases hk with
  | root _ _ hr' => simp [hr] at hr'
  | step _ _ _ hp hchain => exact ⟨_, hp, hchain.mem.1⟩

/-- The neighbour over a connection a node holds is the node at its other end. -/
theorem neighbor_run {id : Int} (hid : id ∈ t.arena) {i : Nat} {e : Bool × Link}
    (he : (t.node id).links[i]? = some e) : neighbor (t.node id) i t = .ok (t.node (farEnd e)) t := by
  have hmem : e ∈ (t.node id).links := List.mem_of_getElem? he
  have hc : (t.node id).connectedId? i = some (farEnd e) := by
    rw [Viewpoint.connectedId?_eq, he]
    rfl
  simp only [neighbor, hc]
  exact h.point_run (h.far_mem id hid e hmem)

/-- The children found among the connections at places `is` of node `x`: the nodes at their
other ends that are children of `x`, in order. -/
theorem childrenAt_run {x : Int} (hx : x ∈ t.arena) :
    ∀ (is : List Nat), (∀ i ∈ is, i < (t.node x).links.length) →
      childrenAt (t.node x) is t = .ok (is.filterMap fun i =>
        ((t.node x).links[i]?).bind fun e =>
          if (t.node (farEnd e)).isRoot = false ∧ leadsTo (t.node (farEnd e)) x = true then
            some (t.node (farEnd e)) else none) t
  | [], _ => rfl
  | i :: is, hlt => by
    have hi : i < (t.node x).links.length := hlt i (List.mem_cons_self ..)
    have hrest := childrenAt_run hx is fun j hj => hlt j (List.mem_cons_of_mem _ hj)
    obtain ⟨e, he⟩ : ∃ e, (t.node x).links[i]? = some e := ⟨_, List.getElem?_eq_getElem hi⟩
    have hw := h.far_mem x hx e (List.mem_of_getElem? he)
    have hxid : (t.node x).id = x := h.id_eq x hx
    simp only [childrenAt, bind, EStateM.bind, h.neighbor_run hx he, he, Option.bind_some,
      List.filterMap_cons]
    by_cases hroot : (t.node (farEnd e)).isRoot = true
    · simp [hroot, hrest]
    · have hroot' : (t.node (farEnd e)).isRoot = false := by simpa using hroot
      obtain ⟨p, hp, -⟩ := h.exists_target hw hroot'
      have hlead : leadsTo (t.node (farEnd e)) x = (p == x) := by simp [leadsTo, hp]
      by_cases hpx : p = x
      · subst hpx
        simp [hroot', hp, liftExcept, hxid, hlead, hrest, pure, EStateM.pure, EStateM.bind]
      · simp [hroot', hp, liftExcept, hxid, hlead, hpx, hrest, pure, EStateM.pure, EStateM.bind]

/-- The children a node finds are the nodes of its `kidIds`. -/
theorem children_run {x : Int} (hx : x ∈ t.arena) :
    children (t.node x) t = .ok ((t.kidIds x).map t.node) t := by
  rw [children, h.childrenAt_run hx _ (fun i hi => List.mem_range.1 hi), filterMap_range_getElem?]
  congr 1
  rw [kidIds, ← List.filterMap_eq_filter, List.filterMap_map, List.map_filterMap]
  apply List.filterMap_congr
  intro e _
  by_cases hc : (t.node (farEnd e)).isRoot = false ∧ leadsTo (t.node (farEnd e)) x = true
  · simp [hc, Option.guard]
  · simp only [hc, if_false]
    simp_all [Option.guard]

/-- The `kidIds` of a node are exactly its children: a child's active connection is held at the
node too (`mirror`), so the node finds the child at its other end. -/
theorem mem_kidIds {x w : Int} (hx : x ∈ t.arena) : w ∈ t.kidIds x ↔ IsChild t x w := by
  constructor
  · intro hw
    obtain ⟨hm, hp⟩ := List.mem_filter.1 hw
    obtain ⟨e, he, rfl⟩ := List.mem_map.1 hm
    simp only [Bool.and_eq_true, Bool.not_eq_true'] at hp
    exact ⟨h.far_mem x hx e he, hp.1, leadsTo_iff.1 hp.2⟩
  · rintro ⟨hw, hr, hp⟩
    obtain ⟨e, he, -, rfl⟩ := Viewpoint.activeLink?_of_target hp
    refine List.mem_filter.2 ⟨List.mem_map.2 ⟨(!e.1, e.2), h.mirror w hw e he, ?_⟩, ?_⟩
    · rw [farEnd_flip, h.near w hw e he]
    · simp [hr, leadsTo_iff.2 hp]

/-- A node finds each child once: no two of its connections lead to the same node. -/
theorem nodup_kidIds {x : Int} (hx : x ∈ t.arena) : (t.kidIds x).Nodup :=
  (h.far_nodup x hx).filter _

end Forest

end ViewpointTree

end Exploration
