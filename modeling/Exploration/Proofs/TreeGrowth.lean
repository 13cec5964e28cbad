import Mathlib
import Exploration.Proofs.Rewire
import Exploration.Proofs.FloatSymmetry

/-!
# Growing the tree by one viewpoint

`LocalPlanner.expand` samples a pose, makes a viewpoint for it outside the tree (`create`),
connects it to its nearest tree viewpoints (`connect`), judges its gain and puts it into the tree
(`addPoint`). The connections are made at both ends before the viewpoint is in the tree, and the
viewpoint is given its node id by its first attempt, made or not.

The tree while the viewpoint is being connected is described once (`Grafting`), with the list `L`
of the connections made so far: the nodes, slots, index and root are as they were; the viewpoint
has no node id yet or the next one; it holds the connections of `L`, outgoing; each node holds its
old connections followed by those of `L` that end at it (`incoming`); and the connections of `L`
start at the viewpoint's node id, end at nodes of the tree and carry the connection ids handed out
since, in order. One attempt adds the connection it makes to `L` (`tryConnect_grafting`), so the
attempts together add connections to the neighbours they try, in the neighbours' order
(`connectEach_grafting`), and `connect` reports success exactly when `L` is not empty
(`connect_grafting`). An expansion that returns `true` leaves the tree grafted with one node
(`Graft`, `expand_grafts`): the node enters at the end of the arena, in the slots and in the index,
pointing at its first connection.

Main statement: `expand_adds_one_node`. On a tree whose counters run ahead of what is in use
(`Ahead`), an expansion that returns `false` leaves every node, the arena, the slots, the index,
the root and the connection counter as they were, and counts one failure; one that returns `true`
adds exactly one node, fresh, pointing at its first connection, whose connections are the only
new ones, each from it to a node that was there; no other node changes but for those incoming
connections, and the local quota decreases by one when it is above zero.
-/

namespace Exploration

namespace ViewpointTree

/-- A stored tree whose counters run ahead of what is in use: the slot of every node is below the
next identity, and every node id is a whole number below the next node id. -/
structure Ahead (t : ViewpointTree) : Prop extends Stored t where
  slot_lt : ∀ id ∈ t.arena, t.slots.getD id 0 < t.fresh
  id_range : ∀ id ∈ t.arena, 0 ≤ id ∧ id < t.nextNode

theorem Linked.ahead {t : ViewpointTree} (h : Linked t) : Ahead t :=
  ⟨h.stored, h.slot_lt, h.id_range⟩

/-- The viewpoint of a node depends only on the slots and on the viewpoint in its slot. -/
theorem node_congr {t t' : ViewpointTree} (hs : t'.slots = t.slots) {id : Int}
    (ho : t'.objects.getD (t.slots.getD id 0) default = t.objects.getD (t.slots.getD id 0) default) :
    t'.node id = t.node id := by
  simp [node, hs, ho]

/-- The incoming connections a node gains from the connections `L` that a new viewpoint made:
those of `L` that end at it, held the other way. -/
def incoming (L : List Link) (id : Int) : List (Bool × Link) :=
  (L.filter (·.target == id)).map ((false, ·))

@[simp] theorem incoming_nil (id : Int) : incoming [] id = [] := rfl

theorem incoming_append_single (L : List Link) (l : Link) (id : Int) :
    incoming (L ++ [l]) id = incoming L id ++ if l.target = id then [(false, l)] else [] := by
  by_cases h : l.target = id <;> simp [incoming, h]

theorem mem_incoming {L : List Link} {id : Int} {e : Bool × Link} :
    e ∈ incoming L id ↔ e.1 = false ∧ e.2 ∈ L ∧ e.2.target = id := by
  obtain ⟨b, l⟩ := e
  simp only [incoming, List.mem_map, List.mem_filter, beq_iff_eq, Prod.mk.injEq]
  constructor
  · rintro ⟨l', ⟨hl', ht⟩, rfl, rfl⟩
    exact ⟨rfl, hl', ht⟩
  · rintro ⟨rfl, hl, ht⟩
    exact ⟨l, ⟨hl, ht⟩, rfl, rfl⟩

/-- The tree `t` is `t₁` while the viewpoint of identity `s`, outside the tree, is being
connected, `L` the connections made so far, in order (see the module comment). -/
structure Grafting (t₁ t : ViewpointTree) (s : Nat) (L : List Link) : Prop where
  arena : t.arena = t₁.arena
  slots : t.slots = t₁.slots
  index : t.index = t₁.index
  root : t.root = t₁.root
  fresh_le : t₁.fresh ≤ t.fresh
  nextLink : t.nextLink = t₁.nextLink + L.length
  stage : ((t.objects.getD s default).id = -1 ∧ t.nextNode = t₁.nextNode ∧ L = []) ∨
    ((t.objects.getD s default).id = t₁.nextNode ∧ t.nextNode = t₁.nextNode + 1)
  own : ∃ i, t.objects.getD s default =
    { t₁.objects.getD s default with id := i, links := L.map ((true, ·)) }
  old : ∀ id ∈ t₁.arena, t.node id =
    { t₁.node id with links := (t₁.node id).links ++ incoming L id }
  made : ∀ l ∈ L, l.parent = t₁.nextNode ∧ l.target ∈ t₁.arena
  ids : L.map (·.id) = List.range' t₁.nextLink L.length

/-- Before any attempt, the tree is its own grafting. -/
theorem Grafting.start {t₁ : ViewpointTree} {s : Nat} (hid : (t₁.objects.getD s default).id = -1)
    (hlinks : (t₁.objects.getD s default).links = []) : Grafting t₁ t₁ s [] where
  arena := rfl
  slots := rfl
  index := rfl
  root := rfl
  fresh_le := le_rfl
  nextLink := rfl
  stage := .inl ⟨hid, rfl, rfl⟩
  own := ⟨-1, by rw [List.map_nil, ← hid, ← hlinks]⟩
  old id _ := by simp
  made := by simp
  ids := rfl

/-- `t'` keeps all of `t` that the tree shows: the same nodes in the same arena, slots, index and
root, and no connection id handed out. -/
structure Untouched (t t' : ViewpointTree) : Prop where
  arena : t'.arena = t.arena
  slots : t'.slots = t.slots
  index : t'.index = t.index
  root : t'.root = t.root
  nextLink : t'.nextLink = t.nextLink
  node : ∀ id ∈ t.arena, t'.node id = t.node id

@[refl] theorem Untouched.refl (t : ViewpointTree) : Untouched t t :=
  ⟨rfl, rfl, rfl, rfl, rfl, fun _ _ => rfl⟩

theorem Untouched.trans {t t₁ t' : ViewpointTree} (h : Untouched t t₁) (h' : Untouched t₁ t') : Untouched t t' where
  arena := h'.arena.trans h.arena
  slots := h'.slots.trans h.slots
  index := h'.index.trans h.index
  root := h'.root.trans h.root
  nextLink := h'.nextLink.trans h.nextLink
  node id hid := (h'.node id (h.arena ▸ hid)).trans (h.node id hid)

/-- `t'` is `t` grown by the node `a`: `a` enters at the end of the arena and points at its first
connection; its connections are outgoing, to nodes of `t`, with ids handed out after `t`'s; every
node of `t` holds its old connections followed by incoming ones from `a`, of such ids too, and is
otherwise as it was. -/
structure Grown (t t' : ViewpointTree) (a : Int) : Prop where
  fresh : a ∉ t.arena
  arena : t'.arena = t.arena ++ [a]
  root : t'.root = t.root
  active : (t'.node a).active = .int 0
  own : ∀ e ∈ (t'.node a).links,
    e.1 = true ∧ e.2.parent = a ∧ e.2.target ∈ t.arena ∧ t.nextLink ≤ e.2.id
  old : ∀ id ∈ t.arena, ∃ extra,
    t'.node id = { t.node id with links := (t.node id).links ++ extra } ∧
    ∀ e ∈ extra, e.1 = false ∧ e.2.parent = a ∧ e.2.target = id ∧ t.nextLink ≤ e.2.id

/-- Growing what was kept is growing the original. -/
theorem Untouched.grown {t t₁ t' : ViewpointTree} {a : Int} (h : Untouched t t₁) (h' : Grown t₁ t' a) :
    Grown t t' a := by
  obtain ⟨hfresh, harena, hroot, hactive, hown, hold⟩ := h'
  rw [h.arena, h.nextLink] at *
  refine ⟨hfresh, harena, hroot.trans h.root, hactive, hown, fun id hid => ?_⟩
  rw [← h.node id hid]
  exact hold id hid

/-- A grafting in which no connection was made keeps every node. -/
theorem Grafting.untouched {t₁ t : ViewpointTree} {s : Nat} (ht : Grafting t₁ t s []) :
    Untouched t₁ t where
  arena := ht.arena
  slots := ht.slots
  index := ht.index
  root := ht.root
  nextLink := by simpa using ht.nextLink
  node id hid := by simpa using ht.old id hid

/-- A grafting in which a connection was made has given the viewpoint its node id. -/
theorem Grafting.id_eq {t₁ t : ViewpointTree} {s : Nat} {L : List Link} (ht : Grafting t₁ t s L)
    (hL : L ≠ []) : (t.objects.getD s default).id = t₁.nextNode := by
  rcases ht.stage with ⟨-, -, hnil⟩ | ⟨hid, -⟩
  · exact absurd hnil hL
  · exact hid

/-- A grafting hands out at most the next node id. -/
theorem Grafting.nextNode_le {t₁ t : ViewpointTree} {s : Nat} {L : List Link}
    (ht : Grafting t₁ t s L) : t₁.nextNode ≤ t.nextNode := by
  rcases ht.stage with ⟨-, h, -⟩ | ⟨-, h⟩ <;> omega

/-- Making a viewpoint outside a tree whose counters run ahead gives it an identity no node has:
every node is kept. -/
theorem Ahead.untouched_create {t : ViewpointTree} (h : Ahead t) (pose : Pose) :
    Untouched t { t with fresh := t.fresh + 1,
                         objects := t.objects.insert t.fresh { serial := t.fresh, pose } } where
  arena := rfl
  slots := rfl
  index := rfl
  root := rfl
  nextLink := rfl
  node id hid := by
    apply node_congr (by rfl)
    have := h.slot_lt id hid
    simp only [Std.HashMap.getD_insert, beq_iff_eq]
    rw [if_neg (by omega)]

theorem Ahead.stored_create {t : ViewpointTree} (h : Ahead t) (pose : Pose) :
    Stored { t with fresh := t.fresh + 1,
                    objects := t.objects.insert t.fresh { serial := t.fresh, pose } } where
  nodup := h.nodup
  contains_iff := h.contains_iff
  serial_eq id hid := by rw [(h.untouched_create pose).node id hid]; exact h.serial_eq id hid
  id_eq id hid := by rw [(h.untouched_create pose).node id hid]; exact h.id_eq id hid

/-- Giving a viewpoint with no node id the next one. -/
theorem ensureId_run_of_neg {t : ViewpointTree} {s : Nat} (h : (t.objects.getD s default).id < 0) :
    ensureId s t = .ok t.nextNode
      { t with nextNode := t.nextNode + 1,
               objects := t.objects.insert (t.objects.getD s default).serial
                 { t.objects.getD s default with id := t.nextNode } } := by
  simp [ensureId, h, bind, EStateM.bind, pure, EStateM.pure]

/-- A viewpoint with a node id keeps it. -/
theorem ensureId_run_of_nonneg {t : ViewpointTree} {s : Nat} (h : 0 ≤ (t.objects.getD s default).id) :
    ensureId s t = .ok (t.objects.getD s default).id t := by
  simp [ensureId, not_lt.2 h, bind, EStateM.bind, pure, EStateM.pure]

/-- A traversal whose every step reads the tree and returns `g x`, for an `x` with `P`, reads the
tree and returns the images. -/
theorem mapM_reads {α β : Type} {f : α → TreeM β} {g : α → β} {P : α → Prop} {t : ViewpointTree}
    (hf : ∀ x y t', f x t = .ok y t' → t' = t ∧ y = g x ∧ P x) :
    ∀ (xs : List α) (ys : List β) (t' : ViewpointTree),
      xs.mapM f t = .ok ys t' → t' = t ∧ ys = xs.map g ∧ ∀ x ∈ xs, P x
  | [], ys, t', h => by
    simp only [List.mapM_nil, pure, EStateM.pure, EStateM.Result.ok.injEq] at h
    obtain ⟨rfl, rfl⟩ := h
    simp
  | x :: xs, ys, t', h => by
    rw [List.mapM_cons] at h
    simp only [bind, EStateM.bind] at h
    cases hx : f x t with
    | error e u => simp [hx] at h
    | ok y u =>
      obtain ⟨rfl, rfl, hPx⟩ := hf x y u hx
      simp only [hx] at h
      cases hxs : xs.mapM f u with
      | error e w => simp [hxs] at h
      | ok zs w =>
        obtain ⟨rfl, rfl, hP⟩ := mapM_reads hf xs zs w hxs
        simp only [hxs, pure, EStateM.pure, EStateM.Result.ok.injEq] at h
        obtain ⟨rfl, rfl⟩ := h
        exact ⟨rfl, rfl, by simpa [hPx] using hP⟩

/-- Looking a node id up, when it returns, reads the tree and gives the viewpoint in the slot of a
node id that has one. -/
theorem point_eq_ok {t t' : ViewpointTree} {id : Int} {v : Viewpoint} (hp : point id t = .ok v t') :
    t' = t ∧ t.slots.contains id = true ∧ v = t.node id := by
  simp only [point, slot, bind, EStateM.bind, MonadState.get, getThe, MonadStateOf.get,
    EStateM.get] at hp
  cases hs : t.slots[id]? with
  | none => simp [hs, throw, throwThe, MonadExceptOf.throw, EStateM.throw] at hp
  | some k =>
    simp [hs, pure, EStateM.pure] at hp
    obtain ⟨rfl, rfl⟩ := hp
    exact ⟨rfl, by simp [Std.HashMap.contains_eq_isSome_getElem?, hs],
      by simp [node, Std.HashMap.getD_eq_getD_getElem?, hs]⟩

/-- The search for the nearest viewpoints, when it returns, reads the tree and gives the
viewpoints of the index entries that the query answers, in order, each of a node id with a slot. -/
theorem nearest_eq_ok {t t' : ViewpointTree} {p : Vec3} {k : Value} {nbs : List Viewpoint}
    (hn : nearest p k t = .ok nbs t') :
    t' = t ∧ ∃ found, t.index.nearest p.toList k = .ok found ∧
      (∀ x ∈ found, t.slots.contains x.1 = true) ∧ nbs = found.map (t.node ·.1) := by
  simp only [nearest, bind, EStateM.bind, MonadState.get, getThe, MonadStateOf.get,
    EStateM.get] at hn
  cases hi : t.index.nearest p.toList k with
  | error e => simp [hi, throw, throwThe, MonadExceptOf.throw, EStateM.throw] at hn
  | ok found =>
    simp only [hi] at hn
    obtain ⟨rfl, rfl, hslots⟩ := mapM_reads (g := (t.node ·.1)) (P := (t.slots.contains ·.1 = true))
      (fun x v u hx => by
        obtain ⟨rfl, hc, rfl⟩ := point_eq_ok hx
        exact ⟨rfl, rfl, hc⟩) found nbs t' hn
    exact ⟨rfl, found, rfl, hslots, rfl⟩

/-- The search for the nearest viewpoints reads the tree. -/
theorem nearest_state {t t' : ViewpointTree} {p : Vec3} {k : Value} {nbs : List Viewpoint}
    (hn : nearest p k t = .ok nbs t') : t' = t :=
  (nearest_eq_ok hn).1

/-- Putting a viewpoint with a node id into the tree: it enters under that id, which was not in
the tree, at the end of the arena, and into the index, which takes it without failing. -/
theorem addPoint_run {t t' : ViewpointTree} {s : Nat} {a : Int}
    (hid : 0 ≤ (t.objects.getD s default).id) (h : addPoint s t = .ok a t') :
    a = (t.objects.getD s default).id ∧ t.slots.contains a = false ∧
      (t.index.insert a (t.objects.getD s default).position.toList).2 = none ∧
      t' = { t with arena := t.arena ++ [a], slots := t.slots.insert a s,
                    index := (t.index.insert a (t.objects.getD s default).position.toList).1 } := by
  simp only [addPoint, bind, EStateM.bind, ensureId_run_of_nonneg hid, contains_run] at h
  cases hc : t.slots.contains (t.objects.getD s default).id with
  | true => simp [hc, EStateM.bind, throw, throwThe, MonadExceptOf.throw, EStateM.throw] at h
  | false =>
    simp only [hc, Bool.false_eq_true, if_false, pure, EStateM.bind, get_run, MonadState.get,
      getThe, MonadStateOf.get, EStateM.get, set, MonadStateOf.set, EStateM.set] at h
    cases he : (t.index.insert (t.objects.getD s default).id
        (t.objects.getD s default).position.toList).2 with
    | some e => simp [he, throw, throwThe, MonadExceptOf.throw, EStateM.throw] at h
    | none =>
      simp only [he, EStateM.pure, EStateM.Result.ok.injEq] at h
      obtain ⟨rfl, rfl⟩ := h
      exact ⟨rfl, hc, he, rfl⟩

section Connecting

variable {t₁ : ViewpointTree} {s : Nat} {L : List Link} (h₁ : Stored t₁) (hpos : 0 ≤ t₁.nextNode)
  (hserial : (t₁.objects.getD s default).serial = s)
  (hslot : ∀ id ∈ t₁.arena, t₁.slots.getD id 0 ≠ s)
include hslot

/-- The nodes of a grafting do not see a change of the viewpoint being connected. -/
theorem Grafting.node_of_insert {t t' : ViewpointTree} (ht : Grafting t₁ t s L) {w : Viewpoint}
    (hs : t'.slots = t.slots) (ho : t'.objects = t.objects.insert s w) {id : Int}
    (hid : id ∈ t₁.arena) : t'.node id = t.node id := by
  apply node_congr hs
  rw [ho, Std.HashMap.getD_insert, ht.slots, if_neg (by simpa using (hslot id hid).symm)]

include hpos hserial in
/-- Giving the viewpoint its node id: the first attempt gives it the next one, later attempts
keep it. -/
theorem ensureId_grafting {t : ViewpointTree} (ht : Grafting t₁ t s L) :
    ∃ t', ensureId s t = .ok t₁.nextNode t' ∧ Grafting t₁ t' s L ∧
      (t'.objects.getD s default).id = t₁.nextNode := by
  obtain ⟨i, hown⟩ := ht.own
  have hs : (t.objects.getD s default).serial = s := by rw [hown]; exact hserial
  rcases ht.stage with ⟨hid, hnode, hnil⟩ | ⟨hid, hnode⟩
  · -- the first attempt: the viewpoint takes the next node id
    have hnew : ensureId s t = .ok t₁.nextNode
        { t with nextNode := t₁.nextNode + 1,
                 objects := t.objects.insert s { t.objects.getD s default with id := t₁.nextNode } } := by
      rw [ensureId_run_of_neg (by omega), hs, hnode]
    refine ⟨_, hnew, ⟨ht.arena, ht.slots, ht.index, ht.root, ht.fresh_le, ht.nextLink,
      .inr ⟨by simp, rfl⟩, ⟨t₁.nextNode, by simp [hown]⟩, fun id hid => ?_, ht.made, ht.ids⟩,
      by simp⟩
    exact (ht.node_of_insert hslot (by rfl) (by rfl) hid).trans (ht.old id hid)
  · -- later attempts: the node id is kept
    exact ⟨t, by rw [ensureId_run_of_nonneg (by omega), hid], ht, hid⟩

include hpos h₁ in
/-- A connection made from the viewpoint to node `id₀`, with the next connection id, held at both
ends: it joins the grafting. -/
theorem Grafting.attach {te t' : ViewpointTree} (ht : Grafting t₁ te s L)
    (hid : (te.objects.getD s default).id = t₁.nextNode) {id₀ : Int} (hid₀ : id₀ ∈ t₁.arena)
    {l : Link} (hpar : l.parent = t₁.nextNode) (htar : l.target = id₀) (hl : l.id = te.nextLink)
    (harena : t'.arena = te.arena) (hslots : t'.slots = te.slots) (hindex : t'.index = te.index)
    (hroot : t'.root = te.root) (hnode : t'.nextNode = te.nextNode)
    (hlink : t'.nextLink = te.nextLink + 1) (hfresh : te.fresh ≤ t'.fresh)
    (hobj : ∀ k, t'.objects.getD k default =
      if k = s then
        { te.objects.getD s default with links := (te.objects.getD s default).links ++ [(true, l)] }
      else if k = t₁.slots.getD id₀ 0 then
        { te.node id₀ with links := (te.node id₀).links ++ [(false, l)] }
      else te.objects.getD k default) :
    Grafting t₁ t' s (L ++ [l]) := by
  obtain ⟨i, hown⟩ := ht.own
  refine ⟨harena.trans ht.arena, hslots.trans ht.slots, hindex.trans ht.index,
    hroot.trans ht.root, ht.fresh_le.trans hfresh, by simp [hlink, ht.nextLink]; omega,
    .inr ⟨?_, ?_⟩, ⟨i, ?_⟩, fun id hid' => ?_, fun l' hl' => ?_, ?_⟩
  · simp [hobj, hid]
  · rcases ht.stage with ⟨hneg, -⟩ | ⟨-, hnext⟩
    · omega
    · omega
  · simp [hobj, hown]
  · -- a node of the tree: the connection is added to node `id₀` only
    have hnode' : t'.node id = t'.objects.getD (t₁.slots.getD id 0) default := by
      rw [node, hslots, ht.slots]
    rw [hnode', hobj, if_neg (hslot id hid'), incoming_append_single]
    by_cases hsame : id = id₀
    · subst hsame
      rw [if_pos rfl, if_pos htar, ht.old id hid']
      simp
    · have hne : t₁.slots.getD id 0 ≠ t₁.slots.getD id₀ 0 :=
        fun h => hsame (h₁.slot_inj' hid' hid₀ h)
      rw [if_neg hne, if_neg (by rw [htar]; exact Ne.symm hsame), List.append_nil, ← ht.old id hid']
      simp [node, ht.slots]
  · rcases List.mem_append.1 hl' with hl' | hl'
    · exact ht.made l' hl'
    · rw [List.mem_singleton.1 hl']
      exact ⟨hpar, htar ▸ hid₀⟩
  · rw [List.map_append, ht.ids, List.map_singleton, hl, ht.nextLink, List.length_append,
      List.length_singleton, List.range'_concat]
    simp

include hpos hserial h₁ in
/-- **One attempt to connect** the viewpoint to node `id₀`: the connection it makes, if any,
ends at `id₀`, joins the grafting and costs the distance between its ends, a number, since it
was cut into whole steps. -/
theorem tryConnect_grafting {t t' : ViewpointTree} (ht : Grafting t₁ t s L) {id₀ : Int}
    (hid₀ : id₀ ∈ t₁.arena) {edge : Float} {clear : Vec3 → Except Error Bool} {x : Option Link}
    (h : tryConnect s (t₁.slots.getD id₀ 0) edge clear t = .ok x t') :
    Grafting t₁ t' s (L ++ x.toList) ∧ ∀ l ∈ x, l.target = id₀ ∧
      l.cost = ((t₁.node id₀).position - (t₁.objects.getD s default).position).norm ∧
      l.cost.isNaN = false := by
  obtain ⟨te, hens, hte, hid⟩ := ensureId_grafting hpos hserial hslot ht
  unfold tryConnect at h
  simp only [bind, EStateM.bind, hens, get_run] at h
  set a := te.objects.getD s default with ha
  set b := te.objects.getD (t₁.slots.getD id₀ 0) default with hb
  cases hT : Value.truncate (Binary.floor ((b.position - a.position).norm / edge)) with
  | error e => simp [hT, EStateM.bind, throw, throwThe, MonadExceptOf.throw, EStateM.throw] at h
  | ok n =>
    cases hA : (segmentPoints a.position b.position (max 1 n).toNat).allM clear with
    | error e => simp [hT, hA, EStateM.bind, throw, throwThe, MonadExceptOf.throw, EStateM.throw, pure, EStateM.pure] at h
    | ok passes =>
      cases passes with
      | false =>
        -- the segment is blocked: nothing but the node id is given
        simp [hT, hA, EStateM.bind, pure, EStateM.pure] at h
        obtain ⟨rfl, rfl⟩ := h
        exact ⟨by simpa using hte, by simp⟩
      | true =>
        -- the connection is made, at both ends
        simp [hT, hA, EStateM.bind, pure, EStateM.pure, MonadState.get, getThe, MonadStateOf.get, EStateM.get, set, MonadStateOf.set, EStateM.set] at h
        obtain ⟨rfl, rfl⟩ := h
        have hsA : a.serial = s := by
          obtain ⟨i, hown⟩ := hte.own
          rw [ha, hown]
          exact hserial
        have hbn : b = te.node id₀ := by rw [hb, node, hte.slots]
        have hbid : b.id = id₀ := by rw [hbn, hte.old id₀ hid₀]; exact h₁.id_eq id₀ hid₀
        have hbs : b.serial = t₁.slots.getD id₀ 0 := by
          rw [hbn, hte.old id₀ hid₀]; exact h₁.serial_eq id₀ hid₀
        have hne : t₁.slots.getD id₀ 0 ≠ s := hslot id₀ hid₀
        set l : Link :=
          { serial := te.fresh, id := te.nextLink, parent := a.id, target := b.id,
            points := segmentPoints a.position b.position (max 1 n).toNat,
            cost := (b.position - a.position).norm }
        refine ⟨hte.attach h₁ hpos hslot hid hid₀ (l := l) hid hbid rfl rfl rfl rfl rfl rfl rfl
          (by simp) fun k => ?_, fun l' hl' => ?_⟩
        swap
        · -- the ends of the connection stand where they stood in `t₁`
          obtain rfl : l' = l := by simpa using hl'.symm
          have hbpos : b.position = (t₁.node id₀).position := by
            rw [hbn, hte.old id₀ hid₀]
            rfl
          have hapos : a.position = (t₁.objects.getD s default).position := by
            obtain ⟨i, hown⟩ := hte.own
            rw [ha, hown]
            rfl
          refine ⟨hbid, ?_, Value.isNaN_eq_false_of_truncate_floor hT⟩
          show (b.position - a.position).norm = _
          rw [hbpos, hapos]
        simp only [Std.HashMap.getD_insert, ← ha, hsA, ← hb, Ne.symm hne, beq_iff_eq, if_false,
          hbs, ← hbn]
        by_cases hks : k = s
        · subst hks
          simp [hne]
        · by_cases hkt : k = t₁.slots.getD id₀ 0
          · subst hkt
            simp [hks]
          · rw [if_neg (Ne.symm hkt), if_neg (Ne.symm hks), if_neg hks, if_neg hkt]

end Connecting

/-- `t'` is `t` grafted with the node `a`, of identity `s`, and its connections `L`: `a` is the
next node id; it enters at the end of the arena, into the slots under `s`, the next identity of
`t`, and into the index, which takes it without failing. It is not flagged root, holds the
connections of `L`, made by it, at least one, and points at the first; each connection of `L`
ends at a node of `t`, which holds it after its old connections, and the connections of `L` have
the connection ids handed out since, in order. The node records no value yet, zero. No other node
changes. -/
structure Graft (t t' : ViewpointTree) (a : Int) (s : Nat) (L : List Link) : Prop where
  next : a = t.nextNode
  arena : t'.arena = t.arena ++ [a]
  slots : t'.slots = t.slots.insert a s
  slot : s = t.fresh
  fresh : t.fresh < t'.fresh
  root : t'.root = t.root
  nextNode : t'.nextNode = t.nextNode + 1
  nextLink : t'.nextLink = t.nextLink + L.length
  index : t.index.insert a (t'.node a).position.toList = (t'.index, none)
  serial : (t'.node a).serial = s
  id : (t'.node a).id = a
  isRoot : (t'.node a).isRoot = false
  active : (t'.node a).active = .int 0
  own : (t'.node a).links = L.map ((true, ·))
  nonempty : L ≠ []
  old : ∀ id ∈ t.arena, t'.node id = { t.node id with links := (t.node id).links ++ incoming L id }
  made : ∀ l ∈ L, l.parent = a ∧ l.target ∈ t.arena
  ids : L.map (·.id) = List.range' t.nextLink L.length
  value : (t'.node a).value = 0.0

/-- A grafted tree is grown by its new node. -/
theorem Graft.grown {t t' : ViewpointTree} {a : Int} {s : Nat} {L : List Link} (ht : Ahead t)
    (h : Graft t t' a s L) : Grown t t' a where
  fresh hmem := by
    have := (ht.id_range a hmem).2
    rw [h.next] at this
    exact lt_irrefl _ this
  arena := h.arena
  root := h.root
  active := h.active
  own e he := by
    rw [h.own] at he
    obtain ⟨l, hl, rfl⟩ := List.mem_map.1 he
    have hid : l.id ∈ L.map (·.id) := List.mem_map_of_mem hl
    rw [h.ids, List.mem_range'_1] at hid
    exact ⟨rfl, (h.made l hl).1, (h.made l hl).2, hid.1⟩
  old id hid := ⟨incoming L id, h.old id hid, fun e he => by
    obtain ⟨hout, hl, htar⟩ := mem_incoming.1 he
    have hmem : e.2.id ∈ L.map (·.id) := List.mem_map_of_mem hl
    rw [h.ids, List.mem_range'_1] at hmem
    exact ⟨hout, (h.made _ hl).1, htar, hmem.1⟩⟩

/-- **Finishing a grafting** in which a connection was made: once the viewpoint, made outside `t`
under its next identity, points at its first connection, is judged and enters the tree under its
node id, the tree is `t` grafted with it. -/
theorem Grafting.graft {t t₃ t' : ViewpointTree} {pose : Pose} {L : List Link} {v : Viewpoint}
    (ht : Ahead t)
    (hsp : Grafting { t with fresh := t.fresh + 1,
                             objects := t.objects.insert t.fresh { serial := t.fresh, pose } }
      t₃ t.fresh L)
    (hL : L ≠ []) (hv : ∃ g, v = { t₃.objects.getD t.fresh default with active := .int 0, gain := g })
    (harena : t'.arena = t.arena ++ [t.nextNode])
    (hslots : t'.slots = t.slots.insert t.nextNode t.fresh)
    (hobj : ∀ k, t'.objects.getD k default = if k = t.fresh then v else t₃.objects.getD k default)
    (hindex : t.index.insert t.nextNode v.position.toList = (t'.index, none))
    (hroot : t'.root = t₃.root) (hnode : t'.nextNode = t₃.nextNode)
    (hlink : t'.nextLink = t₃.nextLink) (hfresh : t'.fresh = t₃.fresh) :
    Graft t t' t.nextNode t.fresh L := by
  obtain ⟨g, rfl⟩ := hv
  obtain ⟨i, hown⟩ := hsp.own
  have hid : (t₃.objects.getD t.fresh default).id = t.nextNode := hsp.id_eq hL
  have hna : t.nextNode ∉ t.arena := fun hmem => lt_irrefl _ (ht.id_range _ hmem).2
  -- the new node is the viewpoint, pointing at its first connection
  have hnew : t'.node t.nextNode =
      { t₃.objects.getD t.fresh default with active := .int 0, gain := g } := by
    simp [node, hslots, hobj]
  -- the nodes of `t` keep their slots, none of which is the new identity
  have hold : ∀ id ∈ t.arena, t'.node id = t₃.node id := by
    intro id hid'
    have hne : t.nextNode ≠ id := fun h => hna (h ▸ hid')
    have hslot : t.slots.getD id 0 ≠ t.fresh := Nat.ne_of_lt (ht.slot_lt id hid')
    simp [node, hslots, hobj, Std.HashMap.getD_insert, hne, hslot, hsp.slots]
  refine ⟨rfl, harena, hslots, rfl, ?_, hroot.trans hsp.root, ?_, ?_, ?_, ?_, ?_, ?_, ?_, ?_, hL,
    fun id hid' => ?_, fun l hl => hsp.made l hl, hsp.ids, ?_⟩
  · have := hsp.fresh_le
    simp only at this
    omega
  · rcases hsp.stage with ⟨-, -, hnil⟩ | ⟨-, h⟩
    · exact absurd hnil hL
    · rw [hnode, h]
  · rw [hlink, hsp.nextLink]
  · rw [hnew]
    exact hindex
  · rw [hnew, hown]
    simp
  · rw [hnew]
    simpa using hid
  · rw [hnew, hown]
    simp
  · rw [hnew]
  · rw [hnew, hown]
  · rw [hold id hid', hsp.old id hid', (ht.untouched_create pose).node id hid']
  · rw [hnew, hown]
    simp

end ViewpointTree

/-- The run with its planner's generator replaced. -/
def LocalRun.withRng (r : LocalRun) (g : Pcg64) : LocalRun :=
  { r with planner := { r.planner with rng := g } }

namespace LocalRun

variable (r : LocalRun) (g g' : Pcg64)

@[simp] theorem withRng_self : r.withRng r.planner.rng = r := rfl
@[simp] theorem withRng_withRng : (r.withRng g).withRng g' = r.withRng g' := rfl
@[simp] theorem withRng_rng : (r.withRng g).planner.rng = g := rfl
@[simp] theorem withRng_tree : (r.withRng g).planner.tree = r.planner.tree := rfl
@[simp] theorem withRng_stats : (r.withRng g).planner.stats = r.planner.stats := rfl

end LocalRun

/-- A bind returns exactly when its first computation returns and the rest returns from there. -/
theorem run_bind_eq_ok {ε σ α β : Type} {x : EStateM ε σ α} {f : α → EStateM ε σ β} {s s'' : σ}
    {b : β} : (x >>= f) s = .ok b s'' ↔ ∃ a s', x s = .ok a s' ∧ f a s' = .ok b s'' := by
  simp only [bind, EStateM.bind]
  cases x s with
  | ok a s' => simp
  | error e s' => simp

/-- A bind whose first computation is known to return continues from where that one left. -/
theorem run_bind_ok_of {ε σ α β : Type} {x : EStateM ε σ α} {f : α → EStateM ε σ β} {s s' s'' : σ}
    {a : α} {b : β} (hx : x s = .ok a s') (h : (x >>= f) s = .ok b s'') : f a s' = .ok b s'' := by
  simpa only [bind, EStateM.bind, hx] using h

/-- A connection length the settings allow: a number, neither above the longest connection nor
below the shortest, as the planner compares them. -/
def LocalSettings.AllowsLength (cfg : LocalSettings) (d : Float) : Prop :=
  d.isNaN = false ∧ Value.lessThan cfg.maxPathLength (.num d) = .ok false ∧
    Value.lessThan (.num d) cfg.minPathLength = .ok false

/-- **An allowed length lies between the shortest and the longest**, where both compare with
themselves (neither is a NaN). -/
theorem LocalSettings.AllowsLength.within {cfg : LocalSettings} {d : Float}
    (h : cfg.AllowsLength d) (hmin : cfg.minPathLength.atMost cfg.minPathLength = .ok true)
    (hmax : cfg.maxPathLength.atMost cfg.maxPathLength = .ok true) :
    cfg.minPathLength.atMost (.num d) = .ok true ∧ (Value.num d).atMost cfg.maxPathLength = .ok true :=
  ⟨Value.atMost_of_lessThan_num_eq_false h.1 hmin h.2.2,
    Value.atMost_num_of_lessThan_eq_false h.1 hmax h.2.1⟩

namespace LocalPlanner

open ViewpointTree

@[simp] theorem planner_run (r : LocalRun) : planner r = .ok r.planner r := rfl

/-- A lifted result returns exactly when it is one, and changes nothing. -/
theorem lift_eq_ok {α : Type} {x : Except Error α} {r r' : LocalRun} {a : α} :
    lift x r = .ok a r' ↔ x = .ok a ∧ r' = r := by
  cases x with
  | ok b => simp [lift, Pure.pure, EStateM.pure, eq_comm]
  | error e => simp [lift, throw, throwThe, MonadExceptOf.throw, EStateM.throw]

@[simp] theorem phase_run (name : String) (r : LocalRun) :
    phase name r = .ok () { r with planner := { r.planner with
      phases := if r.planner.phases.contains name then r.planner.phases
        else r.planner.phases ++ [name] } } := by
  cases h : r.planner.phases.contains name <;>
    simp only [phase, alter, modify, modifyGet, MonadStateOf.modifyGet, EStateM.modifyGet, h,
      Bool.false_eq_true, if_false, if_true]

@[simp] theorem count_run (f : PlannerStats → PlannerStats) (r : LocalRun) :
    count f r = .ok () { r with planner := { r.planner with stats := f r.planner.stats } } := rfl

/-- A computation on the tree returns exactly when it returns on the planner's tree, and then
changes nothing but the tree. -/
theorem onTree_eq_ok {α : Type} {act : TreeM α} {r r' : LocalRun} {x : α} :
    onTree act r = .ok x r' ↔ ∃ t', act r.planner.tree = .ok x t' ∧ r' = r.withTree t' := by
  unfold onTree
  cases act r.planner.tree with
  | ok a t => simp [LocalRun.withTree, eq_comm]
  | error e t => simp

@[simp] theorem clear_run (sc : Scene) (r : LocalRun) :
    clear sc r = .ok (sc.map.traversableActive
      (if sc.seesRobot then some r.mission.pose.position else none)) r := rfl

/-! ## Sampling changes only the generator -/

/-- Judging the gain of a viewpoint changes only its gain. -/
theorem evaluate_run {sc : Scene} {s : Nat} {r r' : LocalRun} (h : evaluate sc s r = .ok () r') :
    ∃ g, r' = r.withTree { r.planner.tree with
      objects := r.planner.tree.objects.insert (r.planner.tree.objects.getD s default).serial
        { r.planner.tree.objects.getD s default with gain := g } } := by
  unfold evaluate at h
  rw [run_bind_eq_ok] at h
  obtain ⟨v, r₁, hv, h⟩ := h
  obtain ⟨t₁, hget, rfl⟩ := onTree_eq_ok.1 hv
  rw [get_run, EStateM.Result.ok.injEq] at hget
  obtain ⟨rfl, rfl⟩ := hget
  rw [LocalRun.withTree_self, run_bind_eq_ok] at h
  obtain ⟨_, r₂, hp, h⟩ := h
  obtain ⟨rfl, rfl⟩ : r.planner = _ ∧ r = r₂ := by simpa using hp
  rw [run_bind_eq_ok] at h
  obtain ⟨g, r₃, hg, h⟩ := h
  obtain ⟨-, rfl⟩ := lift_eq_ok.1 hg
  obtain ⟨t₄, hupd, rfl⟩ := onTree_eq_ok.1 h
  rw [update_run, put_run, EStateM.Result.ok.injEq] at hupd
  obtain ⟨-, rfl⟩ := hupd
  exact ⟨g, rfl⟩

/-- A computation that, when it returns, has changed nothing of the run but the generator. -/
def DrawsOnly {α : Type} (x : LocalM α) : Prop :=
  ∀ r a r', x r = .ok a r' → r' = r.withRng r'.planner.rng

namespace DrawsOnly

variable {α β : Type}

/-- A computation that, when it returns, has changed nothing. -/
theorem of_reads {x : LocalM α} (h : ∀ r a r', x r = .ok a r' → r' = r) : DrawsOnly x := by
  intro r a r' hx
  rw [h r a r' hx, LocalRun.withRng_self]

theorem bind {x : LocalM α} {f : α → LocalM β} (hx : DrawsOnly x) (hf : ∀ a, DrawsOnly (f a)) :
    DrawsOnly (x >>= f) := by
  intro r b r'' h
  obtain ⟨a, r', h₁, h₂⟩ := run_bind_eq_ok.1 h
  calc r'' = r'.withRng r''.planner.rng := hf a r' b r'' h₂
    _ = (r.withRng r'.planner.rng).withRng r''.planner.rng := by rw [← hx r a r' h₁]
    _ = r.withRng r''.planner.rng := rfl

theorem pure (a : α) : DrawsOnly (Pure.pure a : LocalM α) :=
  of_reads fun _ _ _ h => by simp [Pure.pure, EStateM.pure] at h; exact h.2.symm

theorem planner : DrawsOnly planner :=
  of_reads fun _ _ _ h => by simp at h; exact h.2.symm

theorem get : DrawsOnly (MonadState.get : LocalM LocalRun) :=
  of_reads fun _ _ _ h => by
    simp [MonadState.get, getThe, MonadStateOf.get, EStateM.get] at h
    exact h.2.symm

theorem lift (x : Except Error α) : DrawsOnly (lift x) :=
  of_reads fun _ _ _ h => by
    cases x with
    | ok a => simp [LocalPlanner.lift, Pure.pure, EStateM.pure] at h; exact h.2.symm
    | error e => simp [LocalPlanner.lift, throw, throwThe, MonadExceptOf.throw, EStateM.throw] at h

theorem clear (sc : Scene) : DrawsOnly (clear sc) :=
  of_reads fun _ _ _ h => by simp at h; exact h.2.symm

theorem nearest (p : Vec3) (k : Value) : DrawsOnly (onTree (ViewpointTree.nearest p k)) :=
  of_reads fun r _ _ h => by
    obtain ⟨t', hn, rfl⟩ := onTree_eq_ok.1 h
    rw [nearest_state hn, LocalRun.withTree_self]

theorem draw : DrawsOnly draw := by
  intro r a r' h
  simp [LocalPlanner.draw, alter, modify, modifyGet, MonadStateOf.modifyGet, EStateM.modifyGet,
    Pure.pure, EStateM.pure, Bind.bind, EStateM.bind] at h
  obtain ⟨-, rfl⟩ := h
  rfl

end DrawsOnly

/-- **Sampling** changes nothing of the run but the generator. -/
theorem sample_drawsOnly (sc : Scene) : DrawsOnly (sample sc) := by
  unfold sample
  refine .bind .planner fun p => .bind .draw fun _ => .bind .draw fun _ => .bind (.lift _)
    fun rho => .bind .get fun st => .bind (.nearest _ _) fun nbs => ?_
  rcases nbs with _ | ⟨n, _⟩
  · exact .pure _
  · dsimp only
    split
    · exact .pure _
    · refine .bind (.lift _) fun limit => .bind (.clear _) fun ok => .bind (.lift _) fun a =>
        .bind (.lift _) fun c => .bind (.lift _) fun b => ?_
      split
      · exact .pure _
      · exact .bind .draw fun _ => .pure _

section Connecting

variable {t₁ : ViewpointTree} {s : Nat} (h₁ : Stored t₁) (hpos : 0 ≤ t₁.nextNode)
  (hserial : (t₁.objects.getD s default).serial = s)
  (hslot : ∀ id ∈ t₁.arena, t₁.slots.getD id 0 ≠ s)
include h₁ hserial hslot

include hpos in
/-- **The attempts to connect**, one per neighbour within the allowed lengths: the connections
made join the grafting, each to a neighbour tried, in the neighbours' order, and each of a length
the settings allow; nothing else of the run changes, and the attempts report success exactly when
some connection was made. -/
theorem connectEach_grafting (sc : Scene) (cfg : LocalSettings) (p : Vec3)
    (hp : (t₁.objects.getD s default).position = p) :
    ∀ (nbs : List Viewpoint), (∀ nb ∈ nbs, ∃ id ∈ t₁.arena, nb = t₁.node id) →
      ∀ (L : List Link) (r r' : LocalRun) (b : Bool), Grafting t₁ r.planner.tree s L →
        connectEach sc cfg s p nbs r = .ok b r' →
        ∃ L', r' = r.withTree r'.planner.tree ∧ Grafting t₁ r'.planner.tree s (L ++ L') ∧
          (L'.map (·.target)).Sublist (nbs.map (·.id)) ∧ (b = true ↔ L' ≠ []) ∧
          ∀ l ∈ L', cfg.AllowsLength l.cost
  | [], _, L, r, r', b, ht, h => by
    simp only [connectEach, pure, EStateM.pure, EStateM.Result.ok.injEq] at h
    obtain ⟨rfl, rfl⟩ := h
    exact ⟨[], by simp, by simpa using ht, by simp, by simp, by simp⟩
  | nb :: nbs, hnbs, L, r, r', b, ht, h => by
    have hrest := connectEach_grafting sc cfg p hp nbs
      fun nb hnb => hnbs nb (List.mem_cons_of_mem _ hnb)
    obtain ⟨id₀, hid₀, rfl⟩ := hnbs _ List.mem_cons_self
    -- a neighbour passed over leaves the rest to the remaining ones
    have hskip : ∀ r'', connectEach sc cfg s p nbs r = .ok b r'' → r' = r'' →
        ∃ L', r' = r.withTree r'.planner.tree ∧ Grafting t₁ r'.planner.tree s (L ++ L') ∧
          (L'.map (·.target)).Sublist ((t₁.node id₀ :: nbs).map (·.id)) ∧ (b = true ↔ L' ≠ []) ∧
          ∀ l ∈ L', cfg.AllowsLength l.cost := by
      rintro r'' hc rfl
      obtain ⟨L', hr, hg, hsub, hb, hlen⟩ := hrest L r r' b ht hc
      exact ⟨L', hr, hg, hsub.cons _, hb, hlen⟩
    unfold connectEach at h
    simp only [bind, EStateM.bind] at h
    -- the neighbour is skipped when it is too far or too near
    cases hmax : cfg.maxPathLength.lessThan (Value.num (p - (t₁.node id₀).position).norm) with
    | error e => simp [hmax, lift, throw, throwThe, MonadExceptOf.throw, EStateM.throw] at h
    | ok far =>
      simp only [hmax, lift, pure, EStateM.pure] at h
      cases far with
      | true => exact hskip r' h rfl
      | false =>
        simp only [Bool.false_eq_true, if_false, EStateM.bind] at h
        cases hmin : (Value.num (p - (t₁.node id₀).position).norm).lessThan cfg.minPathLength with
        | error e => simp [hmin, throw, throwThe, MonadExceptOf.throw, EStateM.throw] at h
        | ok near =>
          simp only [hmin, EStateM.pure] at h
          cases near with
          | true => exact hskip r' h rfl
          | false =>
            -- an attempt is made
            simp only [Bool.false_eq_true, if_false, EStateM.bind, clear_run] at h
            rw [h₁.serial_eq id₀ hid₀] at h
            cases hx : tryConnect s (t₁.slots.getD id₀ 0) sc.map.frame.size
                (sc.map.traversableActive (if sc.seesRobot then some r.mission.pose.position else none))
                r.planner.tree with
            | error e te => simp [onTree, hx] at h
            | ok x te =>
              obtain ⟨hte, hx₀⟩ := tryConnect_grafting h₁ hpos hserial hslot ht hid₀ hx
              simp only [onTree, hx] at h
              cases hc : connectEach sc cfg s p nbs (r.withTree te) with
              | error e r'' =>
                unfold LocalRun.withTree at hc
                simp [hc] at h
              | ok rest r'' =>
                have hc' := hc
                unfold LocalRun.withTree at hc'
                simp only [hc', EStateM.pure, EStateM.Result.ok.injEq] at h
                obtain ⟨rfl, rfl⟩ := h
                obtain ⟨L', hr'', hg, hsub, hiff, hlen⟩ := hrest _ _ _ _ hte hc
                refine ⟨x.toList ++ L', by rw [hr'']; rfl, by simpa using hg, ?_, ?_, ?_⟩
                · -- a connection made ends at this neighbour
                  cases x with
                  | none => simpa using hsub.cons _
                  | some l =>
                    have htl : l.target = (t₁.node id₀).id := by
                      rw [(hx₀ l rfl).1, h₁.id_eq id₀ hid₀]
                    simpa [htl] using hsub.cons_cons (t₁.node id₀).id
                · cases x <;> simp [hiff]
                · -- a connection made spans the distance the neighbour was kept for
                  intro l hl
                  rcases List.mem_append.1 hl with hl | hl
                  · obtain ⟨-, hcost, hnan⟩ := hx₀ l (Option.mem_toList.1 hl)
                    have hd : l.cost = (p - (t₁.node id₀).position).norm := by
                      rw [hcost, hp, Vec3.norm_sub_comm]
                    exact ⟨hnan, hd ▸ hmax, hd ▸ hmin⟩
                  · exact hlen l hl

/-- **Connecting a new viewpoint** to its nearest viewpoints: the tree ends grafted with the
connections made, to neighbours that the index answers, in its order, each of a length the
settings allow; the viewpoint is made to point at its first connection when some connection was
made, and `connect` reports success exactly when one was. -/
theorem connect_grafting (hid : (t₁.objects.getD s default).id = -1)
    (hlinks : (t₁.objects.getD s default).links = [])
    (hrange : ∀ id ∈ t₁.arena, 0 ≤ id ∧ id < t₁.nextNode)
    (sc : Scene) {r r' : LocalRun} {found : Bool} (hr : r.planner.tree = t₁)
    (h : connect sc s r = .ok found r') :
    ∃ t L, Grafting t₁ t s L ∧ (found = true ↔ L ≠ []) ∧ (found = true → 0 ≤ t₁.nextNode) ∧
      (∃ q k answer, t₁.index.nearest q k = .ok answer ∧
        (L.map (·.target)).Sublist (answer.map (·.1))) ∧
      (∀ l ∈ L, r.planner.settings.AllowsLength l.cost) ∧
      r' = r.withTree (if found then
        { t with objects := t.objects.insert s { t.objects.getD s default with active := .int 0 } }
        else t) := by
  unfold connect at h
  rw [run_bind_eq_ok] at h
  obtain ⟨_, r₁, hp, h⟩ := h
  obtain ⟨rfl, rfl⟩ : r.planner = _ ∧ r = r₁ := by simpa using hp
  -- the viewpoint is read, then its nearest viewpoints, the nodes of the entries the index answers
  rw [run_bind_eq_ok] at h
  obtain ⟨v, r₂, hv, h⟩ := h
  obtain ⟨t₂, hget, rfl⟩ := onTree_eq_ok.1 hv
  rw [hr, get_run, EStateM.Result.ok.injEq] at hget
  obtain ⟨rfl, rfl⟩ := hget
  rw [run_bind_eq_ok] at h
  obtain ⟨nbs, r₃, hn, h⟩ := h
  obtain ⟨t₃, hnear, rfl⟩ := onTree_eq_ok.1 hn
  rw [LocalRun.withTree_tree] at hnear
  obtain ⟨ht₃, answer, hanswer, hkeys, hnbs_eq⟩ := nearest_eq_ok hnear
  subst t₃
  have hnbs : ∀ nb ∈ nbs, ∃ id ∈ t₁.arena, nb = t₁.node id := by
    intro nb hnb
    rw [hnbs_eq] at hnb
    obtain ⟨x, hx, rfl⟩ := List.mem_map.1 hnb
    exact ⟨x.1, (h₁.contains_iff _).1 (hkeys x hx), rfl⟩
  have hids : nbs.map (·.id) = answer.map (·.1) := by
    rw [hnbs_eq, List.map_map]
    exact List.map_congr_left fun x hx => h₁.id_eq _ ((h₁.contains_iff _).1 (hkeys x hx))
  rw [← hr, LocalRun.withTree_self, LocalRun.withTree_self] at h
  by_cases hempty : nbs.isEmpty = true
  · -- no viewpoint is near: nothing is tried
    simp only [hempty, if_true, pure, EStateM.pure, EStateM.Result.ok.injEq] at h
    obtain ⟨rfl, rfl⟩ := h
    exact ⟨t₁, [], Grafting.start hid hlinks, by simp, by simp, ⟨_, _, answer, hanswer, by simp⟩,
      by simp, by simp [← hr]⟩
  · -- some viewpoint is near, so the tree has a node and node ids are whole numbers
    obtain ⟨nb, hnb⟩ := List.exists_mem_of_ne_nil _ (by simpa using hempty)
    obtain ⟨id, hidm, -⟩ := hnbs nb hnb
    have hpos : 0 ≤ t₁.nextNode := by
      have := hrange id hidm
      omega
    rw [if_neg hempty, run_bind_eq_ok] at h
    obtain ⟨found', r₄, hc, h⟩ := h
    obtain ⟨L, hr₄, hsp, hsub, hiff, hlen⟩ := connectEach_grafting h₁ hpos hserial hslot sc _ _
      (by rw [hr]) _ hnbs [] r r₄ found' (by rw [hr]; exact Grafting.start hid hlinks) hc
    rw [List.nil_append] at hsp
    rw [hids] at hsub
    cases found' with
    | false =>
      simp only [Bool.false_eq_true, if_false, pure, EStateM.pure, EStateM.Result.ok.injEq] at h
      obtain ⟨rfl, rfl⟩ := h
      exact ⟨r₄.planner.tree, L, hsp, hiff, fun _ => hpos, ⟨_, _, answer, hanswer, hsub⟩, hlen,
        by simpa using hr₄⟩
    | true =>
      -- the viewpoint points at its first connection
      simp only [if_true] at h
      rw [run_bind_eq_ok] at h
      obtain ⟨_, r₅, hu, h⟩ := h
      obtain ⟨t₅, hupd, rfl⟩ := onTree_eq_ok.1 hu
      simp only [pure, EStateM.pure, EStateM.Result.ok.injEq] at h
      obtain ⟨rfl, rfl⟩ := h
      obtain ⟨i, hown⟩ := hsp.own
      have hs : (r₄.planner.tree.objects.getD s default).serial = s := by rw [hown]; exact hserial
      rw [update_run, put_run, EStateM.Result.ok.injEq] at hupd
      obtain ⟨-, rfl⟩ := hupd
      refine ⟨r₄.planner.tree, L, hsp, hiff, fun _ => hpos, ⟨_, _, answer, hanswer, hsub⟩, hlen, ?_⟩
      rw [hr₄]
      simp [hs]

end Connecting

/-! ### One expansion -/

/-- The run `r'` after an expansion from `r`: only the tree, the generator and the counts may
differ, and the expansion is among the phases timed. -/
def Expansion (r r' : LocalRun) : Prop :=
  r' = { r with planner := { r.planner with
    tree := r'.planner.tree, rng := r'.planner.rng, stats := r'.planner.stats,
    phases := if r.planner.phases.contains "expand" then r.planner.phases
      else r.planner.phases ++ ["expand"] } }

/-- The local quota after one more viewpoint: one less when it was above zero, as it was
otherwise. -/
def SpentQuota (q₀ q : Value) : Prop :=
  (Value.lessThan (.int 0) q₀ = .ok true ∧ q₀.pred = .ok q) ∨
    (Value.lessThan (.int 0) q₀ = .ok false ∧ q = q₀)

theorem spendQuota_spent {q₀ q : Value} (h : spendQuota q₀ = .ok q) : SpentQuota q₀ q := by
  unfold spendQuota at h
  cases hlt : Value.lessThan (.int 0) q₀ with
  | error e => simp [hlt, bind, Except.bind] at h
  | ok above =>
    cases above with
    | true => exact .inl ⟨hlt, by simpa [hlt, bind, Except.bind] using h⟩
    | false =>
      simp only [hlt, bind, Except.bind, Bool.false_eq_true, if_false, pure, Except.pure,
        Except.ok.injEq] at h
      exact .inr ⟨hlt, h.symm⟩

/-- **One expansion**, in full: it changes only the tree, the generator and the counts. When it
returns `false` the tree keeps all it shows, its counters do not go back, and one failure is
counted; when it returns `true` the tree is grafted with one node, connected to neighbours that
the index answers, in its order, over connections of lengths the settings allow, one more
viewpoint is counted and the quota is spent. -/
theorem expand_grafts (sc : Scene) {r r' : LocalRun} {b : Bool} (ht : r.planner.tree.Ahead)
    (h : expand sc r = .ok b r') :
    Expansion r r' ∧
      ((b = false ∧ Untouched r.planner.tree r'.planner.tree ∧
        r.planner.tree.fresh ≤ r'.planner.tree.fresh ∧
        r.planner.tree.nextNode ≤ r'.planner.tree.nextNode ∧
        (r'.planner.stats = { r.planner.stats with
            samplingFailures := r.planner.stats.samplingFailures + 1 } ∨
          r'.planner.stats = { r.planner.stats with
            connectionFailures := r.planner.stats.connectionFailures + 1 })) ∨
       (b = true ∧ (∃ a s L, Graft r.planner.tree r'.planner.tree a s L ∧
          (∃ q k answer, r.planner.tree.index.nearest q k = .ok answer ∧
            (L.map (·.target)).Sublist (answer.map (·.1))) ∧
          ∀ l ∈ L, r.planner.settings.AllowsLength l.cost) ∧
        SpentQuota r.planner.stats.localQuota r'.planner.stats.localQuota ∧
        r'.planner.stats = { r.planner.stats with
          localQuota := r'.planner.stats.localQuota, newPoints := r.planner.stats.newPoints + 1 }))
    := by
  unfold expand at h
  rw [run_bind_eq_ok] at h
  obtain ⟨_, r₀, hph, h⟩ := h
  rw [phase_run, EStateM.Result.ok.injEq] at hph
  obtain ⟨-, rfl⟩ := hph
  rw [run_bind_eq_ok] at h
  obtain ⟨pose?, r₁, hs, h⟩ := h
  obtain ⟨g, rfl⟩ : ∃ g, r₁ = _ := ⟨_, sample_drawsOnly sc _ _ _ hs⟩
  rcases pose? with _ | pose
  · -- nothing was sampled
    simp only [bind, EStateM.bind, count_run, pure, EStateM.pure, EStateM.Result.ok.injEq] at h
    obtain ⟨rfl, rfl⟩ := h
    exact ⟨rfl, .inl ⟨rfl, .refl _, le_rfl, le_rfl, .inl rfl⟩⟩
  · -- a pose was sampled: a viewpoint is made outside the tree and connected to it
    dsimp only at h
    rw [run_bind_eq_ok] at h
    obtain ⟨s, r₂, hc, h⟩ := h
    obtain ⟨t₁, hcr, rfl⟩ := onTree_eq_ok.1 hc
    rw [LocalRun.withRng_tree, create_run, EStateM.Result.ok.injEq] at hcr
    obtain ⟨rfl, rfl⟩ := hcr
    rw [run_bind_eq_ok] at h
    obtain ⟨found, r₃, hcon, h⟩ := h
    obtain ⟨t₃, L, hsp, hiff, hpos, hnear, hlen, rfl⟩ := connect_grafting (ht.stored_create pose)
      (by simp) (fun id hid => Nat.ne_of_lt (ht.slot_lt id hid)) (by simp) (by simp) ht.id_range sc
      (LocalRun.withTree_tree _ _) hcon
    cases found with
    | false =>
      -- no connection was made, so every node is kept
      simp only [Bool.not_false, if_true, Bool.false_eq_true, if_false, bind, EStateM.bind,
        count_run, pure, EStateM.pure, EStateM.Result.ok.injEq] at h
      obtain ⟨rfl, rfl⟩ := h
      obtain rfl : L = [] := by simpa using hiff
      exact ⟨rfl, .inl ⟨rfl, (ht.untouched_create pose).trans hsp.untouched,
        by have := hsp.fresh_le; simp at this ⊢; omega, hsp.nextNode_le, .inr rfl⟩⟩
    | true =>
      -- a connection was made: the viewpoint is judged and enters the tree under its node id
      simp only [Bool.not_true, Bool.false_eq_true, if_false, if_true] at h
      have hL : L ≠ [] := hiff.1 rfl
      set t₀ := r.planner.tree with ht₀
      set s := t₀.fresh with hs
      obtain ⟨i, hown⟩ := hsp.own
      have hid : (t₃.objects.getD s default).id = t₀.nextNode := hsp.id_eq hL
      have hser : (t₃.objects.getD s default).serial = s := by rw [hown]; simp
      rw [run_bind_eq_ok] at h
      obtain ⟨_, r₄, hev, h⟩ := h
      obtain ⟨gain, rfl⟩ := evaluate_run hev
      rw [run_bind_eq_ok] at h
      obtain ⟨a, r₅, hadd, h⟩ := h
      obtain ⟨t₆, hap, rfl⟩ := onTree_eq_ok.1 hadd
      simp only [LocalRun.withTree_tree] at hap
      obtain ⟨ha, hcont, hins, rfl⟩ := addPoint_run (by simp [hser, hid, hpos rfl]) hap
      simp only [Std.HashMap.getD_insert, hser, beq_self_eq_true, if_true, hid] at ha hins
      subst ha
      -- the quota is spent and the new viewpoint counted
      rw [run_bind_eq_ok] at h
      obtain ⟨_, r₆, hp, h⟩ := h
      rw [planner_run, EStateM.Result.ok.injEq] at hp
      obtain ⟨rfl, rfl⟩ := hp
      rw [run_bind_eq_ok] at h
      obtain ⟨q, r₇, hq, h⟩ := h
      obtain ⟨hspend, rfl⟩ := lift_eq_ok.1 hq
      simp only [bind, EStateM.bind, count_run, pure, EStateM.pure, EStateM.Result.ok.injEq] at h
      obtain ⟨rfl, rfl⟩ := h
      rw [LocalRun.withTree_tree] at *
      refine ⟨rfl, .inr ⟨rfl, ⟨t₀.nextNode, s, L, hsp.graft
        (v := { t₃.objects.getD s default with active := .int 0, gain := gain }) ht hL ⟨gain, rfl⟩
        ?_ ?_ ?_ ?_ ?_ ?_ ?_ ?_,
        by simpa using hnear, hlen⟩, spendQuota_spent hspend, rfl⟩⟩
      · simp [hsp.arena]
      · simp [hsp.slots, hs]
      · intro k
        rw [← hs]
        by_cases hk : k = s
        · simp [hk, hser]
        · simp [hk, hser, Std.HashMap.getD_insert, Ne.symm hk]
      · refine Prod.ext ?_ ?_
        · simp [hsp.index, hser, hid]
        · simpa [hsp.index, hser, hid] using hins
      all_goals rfl

/-- **One expansion**, bundled: it changes only the tree, the generator and the counts; when it
returns `false` the tree keeps all it shows and one failure is counted, and when it returns
`true` the tree has grown by one node, one more viewpoint is counted and the quota is spent. -/
theorem expand_run (sc : Scene) {r r' : LocalRun} {b : Bool} (ht : r.planner.tree.Ahead)
    (h : expand sc r = .ok b r') :
    Expansion r r' ∧
      ((b = false ∧ Untouched r.planner.tree r'.planner.tree ∧
        (r'.planner.stats = { r.planner.stats with
            samplingFailures := r.planner.stats.samplingFailures + 1 } ∨
          r'.planner.stats = { r.planner.stats with
            connectionFailures := r.planner.stats.connectionFailures + 1 })) ∨
       (b = true ∧ (∃ a, Grown r.planner.tree r'.planner.tree a) ∧
        SpentQuota r.planner.stats.localQuota r'.planner.stats.localQuota ∧
        r'.planner.stats = { r.planner.stats with
          localQuota := r'.planner.stats.localQuota, newPoints := r.planner.stats.newPoints + 1 }))
    := by
  obtain ⟨hframe, ⟨hb, hkept, -, -, hcount⟩ | ⟨hb, ⟨a, s, L, hg, -⟩, hquota, hcount⟩⟩ :=
    expand_grafts sc ht h
  · exact ⟨hframe, .inl ⟨hb, hkept, hcount⟩⟩
  · exact ⟨hframe, .inr ⟨hb, ⟨a, hg.grown ht⟩, hquota, hcount⟩⟩

/-- **An expansion adds one node or nothing.** On a tree whose counters run ahead of what is in
use, an expansion changes only the tree, the generator and the counts. When it returns `false`,
the nodes, arena, slots, index, root and connection counter are as they were and one failure to
sample or to connect is counted. When it returns `true`, exactly one node was added, fresh and
pointing at its first connection; every new connection goes from it to a node that was there, no
other node changes but by those incoming connections, one more viewpoint is counted and the local
quota is one less if it was above zero and as it was otherwise. -/
theorem expand_adds_one_node (sc : Scene) {r : LocalRun} (ht : r.planner.tree.Ahead) :
    (∀ r', expand sc r = .ok false r' → Expansion r r' ∧ Untouched r.planner.tree r'.planner.tree ∧
      (r'.planner.stats = { r.planner.stats with
          samplingFailures := r.planner.stats.samplingFailures + 1 } ∨
        r'.planner.stats = { r.planner.stats with
          connectionFailures := r.planner.stats.connectionFailures + 1 })) ∧
    (∀ r', expand sc r = .ok true r' → Expansion r r' ∧
      (∃ a, Grown r.planner.tree r'.planner.tree a) ∧
      SpentQuota r.planner.stats.localQuota r'.planner.stats.localQuota ∧
      r'.planner.stats = { r.planner.stats with
        localQuota := r'.planner.stats.localQuota, newPoints := r.planner.stats.newPoints + 1 }) := by
  constructor
  · intro r' h
    obtain ⟨hframe, ⟨-, hkept, hcount⟩ | ⟨hb, -⟩⟩ := expand_run sc ht h
    · exact ⟨hframe, hkept, hcount⟩
    · cases hb
  · intro r' h
    obtain ⟨hframe, ⟨hb, -⟩ | ⟨-, hgrown, hquota, hcount⟩⟩ := expand_run sc ht h
    · cases hb
    · exact ⟨hframe, hgrown, hquota, hcount⟩

theorem expand_on_leaf : leafTreeRun.planner.tree.Ahead ∧
    (∀ r', expand default leafTreeRun = .ok false r' → Expansion leafTreeRun r' ∧
      Untouched leafTree r'.planner.tree ∧
      (r'.planner.stats = { leafTreeRun.planner.stats with
          samplingFailures := leafTreeRun.planner.stats.samplingFailures + 1 } ∨
        r'.planner.stats = { leafTreeRun.planner.stats with
          connectionFailures := leafTreeRun.planner.stats.connectionFailures + 1 })) ∧
    (∀ r', expand default leafTreeRun = .ok true r' → Expansion leafTreeRun r' ∧
      (∃ a, Grown leafTree r'.planner.tree a) ∧
      SpentQuota leafTreeRun.planner.stats.localQuota r'.planner.stats.localQuota ∧
      r'.planner.stats = { leafTreeRun.planner.stats with
        localQuota := r'.planner.stats.localQuota,
        newPoints := leafTreeRun.planner.stats.newPoints + 1 }) :=
  ⟨leafTree_wf.linked.ahead, expand_adds_one_node default leafTree_wf.linked.ahead⟩

/-- A quota set from a fractional number of local points passes zero and then stays below it:
from 2.5 three viewpoints bring it to -0.5, and a quota of -0.5 is never spent further. -/
theorem quota_stalls_below_zero :
    spendQuota (.num 2.5) = .ok (.num 1.5) ∧ spendQuota (.num 1.5) = .ok (.num 0.5) ∧
      spendQuota (.num 0.5) = .ok (.num (-0.5)) ∧
      ∀ q, SpentQuota (.num (-0.5)) q ↔ q = .num (-0.5) := by
  have hbelow : Value.lessThan (.int 0) (.num (-0.5)) = .ok false := rfl
  refine ⟨rfl, rfl, rfl, fun q => ⟨?_, fun hq => .inr ⟨hbelow, hq⟩⟩⟩
  rintro (⟨habove, -⟩ | ⟨-, hq⟩)
  · rw [hbelow] at habove
    cases habove
  · exact hq

end LocalPlanner

end Exploration
