import Mathlib
import Exploration.Local.Planner
import Exploration.Proofs.Ids
import Exploration.Proofs.IndexLive

/-!
# The invariant of the viewpoint tree

A viewpoint tree keeps its viewpoints by identity and lists the node ids in the tree; a node id
is read through its identity (`ViewpointTree.node`). The invariant (`TreeWF`) is what the local
planner keeps of the tree from one planning round to the next:

* the node ids are distinct, each names a stored viewpoint that carries it, and the connections
  are well formed: every connection a viewpoint holds starts or ends at it as its flag says, its
  other end is another node of the tree holding the same connection with the opposite flag,
  connections with one id are one connection, and no two connections join the same two nodes
  (`Linked`);
* exactly one node is flagged root, and it is the recorded root (`OneRoot`);
* the nearest-neighbour index holds exactly the node ids, each at its viewpoint's position
  (`Indexed`);
* from every node, active connections lead to the root (`ReachesRoot`), so within fewer steps
  than there are nodes (`ChainIn.lt_length`).

Chains are read through `ChainIn t S`: the chain from a node that stays among the nodes of `S`.
Phases of a planning round that change active connections keep some chains and break others;
the set `S` says which are kept (`ChainIn.transfer`). Connections alone join nodes to the root
in `JoinedIn`, which is what pruning keeps and repairing turns into chains.
-/

namespace Exploration

/-! ## Connections seen from one end -/

/-- The end of a held connection at the viewpoint that holds it. -/
def nearEnd (e : Bool × Link) : Int := if e.1 then e.2.parent else e.2.target

/-- The other end of a held connection. -/
def farEnd (e : Bool × Link) : Int := if e.1 then e.2.target else e.2.parent

namespace Viewpoint

theorem connectedId?_eq (v : Viewpoint) (i : Nat) : v.connectedId? i = v.links[i]?.map farEnd := by
  unfold connectedId?
  congr 1

/-- The place of the active connection when the active value is an integer. -/
theorem activeIndex?_int {v : Viewpoint} {n : Int} (h : v.active = .int n) :
    v.activeIndex? = .ok (if 0 ≤ n ∧ n < v.links.length then some n.toNat else none) := by
  by_cases h0 : 0 ≤ n
  · by_cases h1 : n < v.links.length
    · simp [activeIndex?, hasActive, h, h0, h1, bind, Except.bind, pure, Except.pure]
    · simp [activeIndex?, hasActive, h, h0, h1, bind, Except.bind, pure, Except.pure]
  · simp [activeIndex?, hasActive, h, h0, bind, Except.bind, pure, Except.pure]

/-- The node the active connection leads to when the active value is an integer. -/
theorem activeTarget?_int {v : Viewpoint} {n : Int} (h : v.active = .int n) :
    v.activeTarget? =
      .ok (if 0 ≤ n ∧ n < v.links.length then v.links[n.toNat]?.map farEnd else none) := by
  unfold activeTarget?
  rw [activeIndex?_int h]
  split <;> simp [connectedId?_eq, pure, Except.pure, bind, Except.bind]

/-- The active connection when the active value is an integer. -/
theorem activeLink?_int {v : Viewpoint} {n : Int} (h : v.active = .int n) :
    v.activeLink? =
      .ok (if 0 ≤ n ∧ n < v.links.length then v.links[n.toNat]?.map (·.2) else none) := by
  unfold activeLink?
  rw [activeIndex?_int h]
  split <;> simp [pure, Except.pure, bind, Except.bind]

/-- An integer active value leads to a node exactly when it is the place of a connection held,
and then to that connection's other end. -/
theorem activeTarget?_eq_some {v : Viewpoint} {n : Int} (h : v.active = .int n) {p : Int} :
    v.activeTarget? = .ok (some p) ↔ ∃ e, 0 ≤ n ∧ v.links[n.toNat]? = some e ∧ farEnd e = p := by
  rw [activeTarget?_int h]
  by_cases hn : 0 ≤ n ∧ n < v.links.length
  · rw [if_pos hn]
    simp only [Except.ok.injEq, Option.map_eq_some_iff]
    constructor
    · rintro ⟨e, he, rfl⟩
      exact ⟨e, hn.1, he, rfl⟩
    · rintro ⟨e, -, he, rfl⟩
      exact ⟨e, he, rfl⟩
  · rw [if_neg hn]
    simp only [Except.ok.injEq, reduceCtorEq, false_iff]
    rintro ⟨e, h0, he, -⟩
    have := (List.getElem?_eq_some_iff.1 he).1
    exact hn ⟨h0, by omega⟩

/-- Two viewpoints in the same place of a tree: the same identity, node id, pose, root flag and
connections. Gain, value and the active connection may differ. -/
structure SamePlace (v w : Viewpoint) : Prop where
  serial : w.serial = v.serial
  id : w.id = v.id
  pose : w.pose = v.pose
  isRoot : w.isRoot = v.isRoot
  links : w.links = v.links

theorem SamePlace.refl (v : Viewpoint) : v.SamePlace v := ⟨rfl, rfl, rfl, rfl, rfl⟩

theorem SamePlace.trans {u v w : Viewpoint} (h₁ : u.SamePlace v) (h₂ : v.SamePlace w) :
    u.SamePlace w :=
  ⟨h₂.serial.trans h₁.serial, h₂.id.trans h₁.id, h₂.pose.trans h₁.pose,
    h₂.isRoot.trans h₁.isRoot, h₂.links.trans h₁.links⟩

/-- Viewpoints in the same place with the same active value lead to the same node. -/
theorem SamePlace.activeTarget? {v w : Viewpoint} (h : v.SamePlace w) (ha : w.active = v.active) :
    w.activeTarget? = v.activeTarget? := by
  unfold Viewpoint.activeTarget? Viewpoint.activeIndex? Viewpoint.hasActive Viewpoint.connectedId?
  rw [ha, h.links]

end Viewpoint

namespace ViewpointTree

/-! ## Reading the tree -/

/-- The viewpoint of a node id, read through its identity as `points` reads it. -/
def node (t : ViewpointTree) (id : Int) : Viewpoint := t.objects.getD (t.slots.getD id 0) default

@[simp] theorem get_run (s : Nat) (t : ViewpointTree) :
    get s t = .ok (t.objects.getD s default) t := rfl

@[simp] theorem put_run (v : Viewpoint) (t : ViewpointTree) :
    put v t = .ok () { t with objects := t.objects.insert v.serial v } := rfl

@[simp] theorem update_run (s : Nat) (f : Viewpoint → Viewpoint) (t : ViewpointTree) :
    update s f t = put (f (t.objects.getD s default)) t := rfl

@[simp] theorem create_run (pose : Pose) (t : ViewpointTree) :
    create pose t = .ok t.fresh
      { t with fresh := t.fresh + 1,
               objects := t.objects.insert t.fresh { serial := t.fresh, pose } } := rfl

@[simp] theorem size_run (t : ViewpointTree) : size t = .ok t.arena.length t := rfl

@[simp] theorem contains_run (id : Int) (t : ViewpointTree) :
    contains id t = .ok (t.slots.contains id) t := rfl

@[simp] theorem points_run (t : ViewpointTree) : points t = .ok (t.arena.map t.node) t := rfl

@[simp] theorem allocate_run (t : ViewpointTree) :
    allocate t = .ok t.nextNode { t with nextNode := t.nextNode + 1 } := rfl

/-- The viewpoint of a node once an identity is given a new viewpoint. -/
theorem node_insert (t : ViewpointTree) (k : Nat) (w : Viewpoint) (id : Int) :
    ({ t with objects := t.objects.insert k w } : ViewpointTree).node id =
      if t.slots.getD id 0 = k then w else t.node id := by
  simp only [node, Std.HashMap.getD_insert, beq_iff_eq]
  by_cases h : t.slots.getD id 0 = k
  · simp [h]
  · simp [h, Ne.symm h]

/-! ## The invariant -/

/-- What a connection `e` held by node `id` must be: it starts or ends at `id` as its flag says,
and its other end is another node of the tree that holds the same connection with the opposite
flag. Its id was given before the next one. -/
structure Holds (t : ViewpointTree) (id : Int) (e : Bool × Link) : Prop where
  near : nearEnd e = id
  far_mem : farEnd e ∈ t.arena
  far_ne : farEnd e ≠ id
  mirror : (!e.1, e.2) ∈ (t.node (farEnd e)).links
  id_lt : e.2.id < t.nextLink

/-- The nodes and connections of the tree are well formed (see the module comment). -/
structure Linked (t : ViewpointTree) : Prop where
  nodup : t.arena.Nodup
  contains_iff : ∀ id, t.slots.contains id = true ↔ id ∈ t.arena
  serial_eq : ∀ id ∈ t.arena, (t.node id).serial = t.slots.getD id 0
  id_eq : ∀ id ∈ t.arena, (t.node id).id = id
  slot_lt : ∀ id ∈ t.arena, t.slots.getD id 0 < t.fresh
  id_range : ∀ id ∈ t.arena, 0 ≤ id ∧ id < t.nextNode
  active_int : ∀ id ∈ t.arena, ∃ n : Int, (t.node id).active = .int n
  holds : ∀ id ∈ t.arena, ∀ e ∈ (t.node id).links, Holds t id e
  same_id : ∀ a ∈ t.arena, ∀ b ∈ t.arena, ∀ e ∈ (t.node a).links, ∀ e' ∈ (t.node b).links,
    e.2.id = e'.2.id → e.2 = e'.2
  far_nodup : ∀ id ∈ t.arena, ((t.node id).links.map farEnd).Nodup

/-- Exactly one node of the tree is flagged root, and it is the recorded root. -/
def OneRoot (t : ViewpointTree) : Prop :=
  ∃ r ∈ t.arena, t.root = some (t.slots.getD r 0) ∧
    ∀ id ∈ t.arena, (t.node id).isRoot = true ↔ id = r

/-- The index holds exactly the node ids, in order, each at its viewpoint's position. -/
structure Indexed (t : ViewpointTree) : Prop where
  wf : t.index.Wf
  entries : t.index.entries = t.arena.map fun id => (id, (t.node id).position.toList)

/-- Following active connections from node `id` through nodes of `S` reaches the root in `k`
steps. -/
inductive ChainIn (t : ViewpointTree) (S : Int → Prop) : Int → Nat → Prop
  | root {id : Int} : id ∈ t.arena → S id → (t.node id).isRoot = true → ChainIn t S id 0
  | step {id p : Int} {k : Nat} : id ∈ t.arena → S id → (t.node id).isRoot = false →
      (t.node id).activeTarget? = .ok (some p) → ChainIn t S p k → ChainIn t S id (k + 1)

/-- Following active connections from node `id` reaches the root in `k` steps. -/
def ReachesRoot (t : ViewpointTree) (id : Int) (k : Nat) : Prop := ChainIn t (fun _ => True) id k

/-- Connections through nodes of `S` join node `id` to a node flagged root. -/
inductive JoinedIn (t : ViewpointTree) (S : Int → Prop) : Int → Prop
  | root {id : Int} : id ∈ t.arena → S id → (t.node id).isRoot = true → JoinedIn t S id
  | step {id : Int} {e : Bool × Link} : id ∈ t.arena → S id → e ∈ (t.node id).links →
      JoinedIn t S (farEnd e) → JoinedIn t S id

/-- The invariant of the viewpoint tree (see the module comment). -/
structure TreeWF (t : ViewpointTree) : Prop where
  linked : Linked t
  oneRoot : OneRoot t
  indexed : Indexed t
  reaches : ∀ id ∈ t.arena, ∃ k, ReachesRoot t id k

/-! ## Consequences of a well-formed tree -/

namespace Linked

variable {t : ViewpointTree} (h : Linked t)
include h

theorem getElem?_slots {id : Int} (hid : id ∈ t.arena) : t.slots[id]? = some (t.slots.getD id 0) :=
  Std.HashMap.getElem?_eq_some_getD_of_contains ((h.contains_iff id).2 hid)

theorem getElem?_slots_eq_none {id : Int} (hid : id ∉ t.arena) : t.slots[id]? = none :=
  Std.HashMap.getElem?_eq_none_of_contains_eq_false (by
    cases hc : t.slots.contains id
    · rfl
    · exact absurd ((h.contains_iff id).1 hc) hid)

/-- Distinct nodes have distinct identities. -/
theorem slot_inj {a b : Int} (ha : a ∈ t.arena) (hb : b ∈ t.arena)
    (hab : t.slots.getD a 0 = t.slots.getD b 0) : a = b := by
  have hnode : t.node a = t.node b := by simp only [node, hab]
  rw [← h.id_eq a ha, ← h.id_eq b hb, hnode]

/-- A connection held twice by one node is one entry: connection ids are distinct among the
connections of a node. -/
theorem links_nodup_id {id : Int} (hid : id ∈ t.arena) :
    ((t.node id).links.map (·.2.id)).Nodup := by
  have hfar := h.far_nodup id hid
  rw [List.nodup_map_iff_inj_on (List.Nodup.of_map _ hfar)]
  intro e he e' he' hee'
  have hl := h.same_id id hid id hid e he e' he' hee'
  have hn := (h.holds id hid e he).near
  have hn' := (h.holds id hid e' he').near
  have hf := (h.holds id hid e he).far_ne
  obtain ⟨b, l⟩ := e
  obtain ⟨b', l'⟩ := e'
  dsimp only at hl
  subst hl
  cases b <;> cases b' <;> simp_all [nearEnd, farEnd]

end Linked

/-! ## Trees in the same shape -/

/-- Two trees with the same nodes, connections, index and counters (the second may have used
more identities), whose viewpoints may differ in gain, value and active connection. -/
structure SameLinks (t t' : ViewpointTree) : Prop where
  arena : t'.arena = t.arena
  slots : t'.slots = t.slots
  index : t'.index = t.index
  root : t'.root = t.root
  nextNode : t'.nextNode = t.nextNode
  nextLink : t'.nextLink = t.nextLink
  fresh : t.fresh ≤ t'.fresh
  place : ∀ id ∈ t.arena, (t.node id).SamePlace (t'.node id)

namespace SameLinks

variable {t t' t'' : ViewpointTree}

theorem refl (t : ViewpointTree) : SameLinks t t :=
  ⟨rfl, rfl, rfl, rfl, rfl, rfl, le_rfl, fun _ _ => Viewpoint.SamePlace.refl _⟩

theorem trans (h₁ : SameLinks t t') (h₂ : SameLinks t' t'') : SameLinks t t'' :=
  ⟨h₂.arena.trans h₁.arena, h₂.slots.trans h₁.slots, h₂.index.trans h₁.index,
    h₂.root.trans h₁.root, h₂.nextNode.trans h₁.nextNode, h₂.nextLink.trans h₁.nextLink,
    h₁.fresh.trans h₂.fresh,
    fun id hid => (h₁.place id hid).trans (h₂.place id (h₁.arena ▸ hid))⟩

theorem linked (h : SameLinks t t') (ht : Linked t)
    (hactive : ∀ id ∈ t.arena, ∃ n : Int, (t'.node id).active = .int n) : Linked t' := by
  have hp := h.place
  refine ⟨h.arena ▸ ht.nodup, fun id => ?_, fun id hid => ?_, fun id hid => ?_, fun id hid => ?_,
    fun id hid => ?_, fun id hid => hactive id (h.arena ▸ hid), fun id hid e he => ?_,
    fun a ha b hb e he e' he' => ?_, fun id hid => ?_⟩
  · rw [h.slots, h.arena]
    exact ht.contains_iff id
  · rw [h.arena] at hid
    rw [(hp id hid).serial, h.slots]
    exact ht.serial_eq id hid
  · rw [h.arena] at hid
    rw [(hp id hid).id]
    exact ht.id_eq id hid
  · rw [h.arena] at hid
    rw [h.slots]
    exact lt_of_lt_of_le (ht.slot_lt id hid) h.fresh
  · rw [h.arena] at hid
    rw [h.nextNode]
    exact ht.id_range id hid
  · rw [h.arena] at hid
    rw [(hp id hid).links] at he
    have hh := ht.holds id hid e he
    exact ⟨hh.near, h.arena ▸ hh.far_mem, hh.far_ne,
      (hp _ hh.far_mem).links ▸ hh.mirror, h.nextLink ▸ hh.id_lt⟩
  · rw [h.arena] at ha hb
    rw [(hp a ha).links] at he
    rw [(hp b hb).links] at he'
    exact ht.same_id a ha b hb e he e' he'
  · rw [h.arena] at hid
    rw [(hp id hid).links]
    exact ht.far_nodup id hid

theorem oneRoot (h : SameLinks t t') (ht : OneRoot t) : OneRoot t' := by
  obtain ⟨r, hr, hroot, hflag⟩ := ht
  refine ⟨r, h.arena ▸ hr, by rw [h.root, h.slots]; exact hroot, fun id hid => ?_⟩
  rw [h.arena] at hid
  rw [(h.place id hid).isRoot]
  exact hflag id hid

theorem indexed (h : SameLinks t t') (ht : Indexed t) : Indexed t' := by
  refine ⟨h.index ▸ ht.wf, ?_⟩
  rw [h.index, ht.entries, h.arena]
  refine List.map_congr_left fun id hid => ?_
  simp only [Viewpoint.position, (h.place id hid).pose]

theorem joinedIn (h : SameLinks t t') {S : Int → Prop} {u : Int} (hu : JoinedIn t S u) :
    JoinedIn t' S u := by
  induction hu with
  | root hid hS hr => exact .root (h.arena ▸ hid) hS ((h.place _ hid).isRoot ▸ hr)
  | step hid hS he _ ih => exact .step (h.arena ▸ hid) hS ((h.place _ hid).links ▸ he) ih

end SameLinks

/-! ## Chains -/

namespace ChainIn

variable {t t' : ViewpointTree} {S S' : Int → Prop} {u : Int} {k : Nat}

theorem mem (h : ChainIn t S u k) : u ∈ t.arena ∧ S u := by
  cases h with
  | root hid hS _ => exact ⟨hid, hS⟩
  | step hid hS _ _ _ => exact ⟨hid, hS⟩

theorem mono (h : ChainIn t S u k) (hS : ∀ id, S id → S' id) : ChainIn t S' u k := by
  induction h with
  | root hid hs hr => exact .root hid (hS _ hs) hr
  | step hid hs hr hp _ ih => exact .step hid (hS _ hs) hr hp ih

/-- The inversion of a chain at a node not flagged root. -/
theorem parent (h : ChainIn t S u k) (hr : (t.node u).isRoot = false) {p : Int}
    (hp : (t.node u).activeTarget? = .ok (some p)) : ∃ j, k = j + 1 ∧ ChainIn t S p j := by
  cases h with
  | root _ _ hr' => exact absurd hr' (by simp [hr])
  | step _ _ _ hp' hchain =>
    rw [hp] at hp'
    cases hp'
    exact ⟨_, rfl, hchain⟩

/-- The length of a chain is determined by its start. -/
theorem unique {k' : Nat} (h : ChainIn t S u k) (h' : ChainIn t S' u k') : k = k' := by
  induction h generalizing k' with
  | root _ _ hr =>
    cases h' with
    | root => rfl
    | step _ _ hr' => exact absurd hr (by simp [hr'])
  | step _ _ hr hp _ ih =>
    obtain ⟨j, rfl, hj⟩ := h'.parent hr hp
    rw [ih hj]

/-- A chain carries over to a tree that agrees on the arena, root flags and active targets of
the nodes of `S`. -/
theorem transfer (h : ChainIn t S u k) (harena : ∀ id ∈ t.arena, S id → id ∈ t'.arena)
    (hroot : ∀ id ∈ t.arena, S id → (t'.node id).isRoot = (t.node id).isRoot)
    (htarget : ∀ id ∈ t.arena, S id → (t.node id).isRoot = false →
      (t'.node id).activeTarget? = (t.node id).activeTarget?) : ChainIn t' S u k := by
  induction h with
  | root hid hS hr => exact .root (harena _ hid hS) hS ((hroot _ hid hS).trans hr)
  | step hid hS hr hp _ ih =>
    exact .step (harena _ hid hS) hS ((hroot _ hid hS).trans hr)
      ((htarget _ hid hS hr).trans hp) ih

/-- The nodes of a chain are distinct: a chain of `k` steps passes `k + 1` nodes, each with a
chain of its own of at most `k` steps. -/
theorem exists_nodes (h : ChainIn t S u k) :
    ∃ l : List Int, l.Nodup ∧ l.length = k + 1 ∧ ∀ w ∈ l, w ∈ t.arena ∧ ∃ j ≤ k, ChainIn t S w j := by
  induction h with
  | @root id hid hS hr =>
    refine ⟨[id], List.nodup_singleton _, rfl, fun w hw => ?_⟩
    rw [List.mem_singleton] at hw
    subst hw
    exact ⟨hid, 0, le_rfl, .root hid hS hr⟩
  | @step id p k hid hS hr hp hchain ih =>
    obtain ⟨l, hnd, hlen, hl⟩ := ih
    have hself : ChainIn t S id (k + 1) := .step hid hS hr hp hchain
    refine ⟨id :: l, List.nodup_cons.2 ⟨fun hmem => ?_, hnd⟩, by simp [hlen], ?_⟩
    · -- on the chain from the parent, `id` would have a chain of at most `k` steps
      obtain ⟨-, j, hj, hjc⟩ := hl id hmem
      have := hself.unique hjc
      omega
    · intro w hw
      rcases List.mem_cons.1 hw with rfl | hw
      · exact ⟨hid, k + 1, le_rfl, hself⟩
      · obtain ⟨hw', j, hj, hjc⟩ := hl w hw
        exact ⟨hw', j, by omega, hjc⟩

/-- **A chain is shorter than the tree**: following active connections reaches the root within
fewer steps than there are nodes. -/
theorem lt_length (h : ChainIn t S u k) : k < t.arena.length := by
  obtain ⟨l, hnd, hlen, hl⟩ := h.exists_nodes
  have := (hnd.subperm fun w hw => (hl w hw).1).length_le
  omega

end ChainIn

/-- Reaching the root carries over to a tree that agrees on the arena, and on the root flags and
active targets of every node outside `X`, once the nodes of `X` reach the root there. -/
theorem ReachesRoot.transfer_except {t t' : ViewpointTree} {X : Int → Prop} {id : Int} {k : Nat}
    (h : ReachesRoot t id k) (harena : ∀ w ∈ t.arena, w ∈ t'.arena)
    (hagree : ∀ w ∈ t.arena, ¬X w → (t'.node w).isRoot = (t.node w).isRoot ∧
      ((t.node w).isRoot = false → (t'.node w).activeTarget? = (t.node w).activeTarget?))
    (hX : ∀ w, X w → ∃ k, ReachesRoot t' w k) : ∃ k', ReachesRoot t' id k' := by
  induction h with
  | @root w hw _ hr =>
    by_cases hXw : X w
    · exact hX w hXw
    · exact ⟨0, .root (harena w hw) trivial ((hagree w hw hXw).1.trans hr)⟩
  | @step w p k hw _ hr hp _ ih =>
    by_cases hXw : X w
    · exact hX w hXw
    · obtain ⟨k', hk'⟩ := ih
      obtain ⟨hroot, htarget⟩ := hagree w hw hXw
      exact ⟨k' + 1, .step (harena w hw) trivial (hroot.trans hr) ((htarget hr).trans hp) hk'⟩

/-! ## The nodes above a node -/

/-- Node `a` is on the active chain from node `w`, or is `w`. -/
inductive OnChain (t : ViewpointTree) (a : Int) : Int → Prop
  | self : OnChain t a a
  | up {w p : Int} : (t.node w).isRoot = false → (t.node w).activeTarget? = .ok (some p) →
      OnChain t a p → OnChain t a w

namespace OnChain

variable {t : ViewpointTree} {a b c : Int}

theorem trans (hab : OnChain t a b) (hbc : OnChain t b c) : OnChain t a c := by
  induction hbc with
  | self => exact hab
  | up hr hp _ ih => exact .up hr hp ih

/-- A node on the chain from `w` has a shorter chain than `w`, strictly unless it is `w`. -/
theorem depth {S : Int → Prop} {w : Int} {k : Nat} (h : OnChain t a w) (hw : ChainIn t S w k) :
    ∃ j ≤ k, ChainIn t S a j ∧ (j = k → a = w) := by
  induction h generalizing k with
  | self => exact ⟨k, le_rfl, hw, fun _ => rfl⟩
  | up hr hp _ ih =>
    obtain ⟨j, rfl, hj⟩ := hw.parent hr hp
    obtain ⟨i, hi, hic, -⟩ := ih hj
    exact ⟨i, by omega, hic, fun h => absurd h (by omega)⟩

/-- Where chains reach the root, no two nodes are each on the other's chain. -/
theorem antisymm {S : Int → Prop} {k : Nat} (hab : OnChain t a b) (hba : OnChain t b a)
    (hb : ChainIn t S b k) : a = b := by
  obtain ⟨j, hj, ha, hjk⟩ := hab.depth hb
  obtain ⟨i, hi, hb', -⟩ := hba.depth ha
  have := hb.unique hb'
  exact hjk (by omega)

end OnChain

end ViewpointTree

end Exploration
