import Mathlib
import Exploration.Proofs.TreeEdit

/-!
# The breadth-first search of the viewpoint tree

`reached onlyActive` marks the nodes met from the nodes flagged root, breadth first, over the
connections; with `onlyActive`, a neighbour is met only when its active connection leads back.
On a tree whose connections are held at both ends it marks exactly the nodes met from a root by
such steps (`FromRoot`, over `Edge`), each once, and changes nothing (`Symmetric.reached_run`).
Met over any connection, these are the nodes joined to a root (`Symmetric.fromRoot_false_iff`);
met over active connections that lead back, they are the nodes whose active chain reaches the
root (`Symmetric.fromRoot_true_iff`).

The search keeps its seen nodes distinct and met from a root, its queue among them, and every
node taken off the queue with all its neighbours seen (`Frontier`). A node is queued once, so the
search takes at most as many nodes off the queue as there are nodes, and the fuel it is given is
enough.
-/

namespace Exploration

namespace ViewpointTree

/-- A step of the search from node `x` to node `w`: `x` holds a connection to `w`, and with
`onlyActive` the active connection of `w` leads back to `x`. -/
def Edge (t : ViewpointTree) (onlyActive : Bool) (x w : Int) : Prop :=
  ∃ e ∈ (t.node x).links, farEnd e = w ∧
    (onlyActive = true → (t.node w).activeTarget? = .ok (some x))

/-- Node `w` is met from a node flagged root by steps of the search. -/
inductive FromRoot (t : ViewpointTree) (onlyActive : Bool) : Int → Prop
  | root {w : Int} : w ∈ t.arena → (t.node w).isRoot = true → FromRoot t onlyActive w
  | edge {x w : Int} : FromRoot t onlyActive x → t.Edge onlyActive x w → FromRoot t onlyActive w

/-- Adding distinct ids, none seen, puts them in front in reverse order. -/
theorem foldl_addSeen {ids acc : List Int} (hnd : ids.Nodup) (hfresh : ∀ x ∈ ids, x ∉ acc) :
    ids.foldl addSeen acc = ids.reverse ++ acc := by
  induction ids generalizing acc with
  | nil => rfl
  | cons x xs ih =>
    rw [List.nodup_cons] at hnd
    have hx : addSeen acc x = x :: acc := by
      simp [addSeen, hfresh x (List.mem_cons_self ..)]
    have hrest : ∀ y ∈ xs, y ∉ x :: acc := by
      intro y hy hy'
      rcases List.mem_cons.1 hy' with rfl | hy'
      · exact hnd.1 hy
      · exact hfresh y (List.mem_cons_of_mem _ hy) hy'
    rw [List.foldl_cons, hx, ih hnd.2 hrest]
    simp

/-- The connections of a node read place by place are its connections. -/
theorem exists_getElem?_iff {l : List (Bool × Link)} {P : Bool × Link → Prop} :
    (∃ i ∈ List.range l.length, ∃ e, l[i]? = some e ∧ P e) ↔ ∃ e ∈ l, P e := by
  constructor
  · rintro ⟨i, -, e, he, hP⟩
    exact ⟨e, List.mem_of_getElem? he, hP⟩
  · rintro ⟨e, he, hP⟩
    obtain ⟨i, hi, hie⟩ := List.getElem_of_mem he
    exact ⟨i, List.mem_range.2 hi, e, by rw [List.getElem?_eq_getElem hi, hie], hP⟩

/-- What the search keeps, for seen nodes `S` and queue `Q`: the seen nodes are distinct and met
from a root, the roots are seen, the queue is distinct and seen, and every seen node off the
queue has all its steps seen. -/
structure Frontier (t : ViewpointTree) (b : Bool) (S Q : List Int) : Prop where
  nodup : S.Nodup
  sound : ∀ w ∈ S, FromRoot t b w
  roots : ∀ w ∈ t.arena, (t.node w).isRoot = true → w ∈ S
  queued : ∀ x ∈ Q, x ∈ S
  queue_nodup : Q.Nodup
  closed : ∀ x ∈ S, x ∉ Q → ∀ w, t.Edge b x w → w ∈ S

/-- **One step of the search keeps `Frontier`**: the node taken off the queue meets its unseen
neighbours, which are seen and queued. -/
theorem Frontier.step {b : Bool} {S Q : List Int} {x : Int} (hf : Frontier t b S (x :: Q))
    {met : List Int} (hnd : met.Nodup) (hfresh : ∀ w ∈ met, w ∉ S)
    (hiff : ∀ w, w ∈ met ↔ w ∉ S ∧ t.Edge b x w) :
    Frontier t b (met.reverse ++ S) (Q ++ met) := by
  have hxS : x ∈ S := hf.queued x (List.mem_cons_self ..)
  have hxQ := List.nodup_cons.1 hf.queue_nodup
  refine ⟨?nodup, ?sound, ?roots, ?queued, ?queue_nodup, ?closed⟩
  case nodup =>
    exact List.nodup_append.2 ⟨List.nodup_reverse.2 hnd, hf.nodup,
      fun w hw w' hw' hww' => hfresh w (List.mem_reverse.1 hw) (hww' ▸ hw')⟩
  case sound =>
    intro w hw
    rcases List.mem_append.1 hw with hw | hw
    · exact .edge (hf.sound x hxS) ((hiff w).1 (List.mem_reverse.1 hw)).2
    · exact hf.sound w hw
  case roots => exact fun w hw hr => List.mem_append_right _ (hf.roots w hw hr)
  case queued =>
    intro y hy
    rcases List.mem_append.1 hy with hy | hy
    · exact List.mem_append_right _ (hf.queued y (List.mem_cons_of_mem _ hy))
    · exact List.mem_append_left _ (List.mem_reverse.2 hy)
  case queue_nodup =>
    exact List.nodup_append.2 ⟨hxQ.2, hnd, fun y hy y' hy' hyy' =>
      hfresh y' hy' (hyy' ▸ hf.queued y (List.mem_cons_of_mem _ hy))⟩
  case closed =>
    intro y hy hyQ w hyw
    have hyS : y ∈ S := by
      rcases List.mem_append.1 hy with hy' | hy'
      · exact absurd (List.mem_append_right _ (List.mem_reverse.1 hy')) hyQ
      · exact hy'
    -- the node just visited has its unseen steps among those met; any other was done before
    by_cases hyx : y = x
    · subst hyx
      by_cases hwS : w ∈ S
      · exact List.mem_append_right _ hwS
      · exact List.mem_append_left _ (List.mem_reverse.2 ((hiff w).2 ⟨hwS, hyw⟩))
    · have hyQ' : y ∉ x :: Q := by
        rintro (_ | ⟨_, hyQ'⟩)
        · exact hyx rfl
        · exact hyQ (List.mem_append_left _ hyQ')
      exact List.mem_append_right _ (hf.closed y hyS hyQ' w hyw)

namespace Symmetric

variable {t : ViewpointTree} (h : Symmetric t)
include h

/-- The neighbour over a connection a node holds is the node at its other end. -/
theorem neighbor_run {x : Int} (hx : x ∈ t.arena) {i : Nat} {e : Bool × Link}
    (he : (t.node x).links[i]? = some e) :
    neighbor (t.node x) i t = .ok (t.node (farEnd e)) t := by
  have hc : (t.node x).connectedId? i = some (farEnd e) := by
    rw [Viewpoint.connectedId?_eq, he]
    rfl
  simp only [neighbor, hc]
  exact h.point_run (h.far_mem x hx e (List.mem_of_getElem? he))

/-- A node's active connection leads somewhere or nowhere, without failing. -/
theorem exists_activeTarget {x : Int} (hx : x ∈ t.arena) :
    ∃ o, (t.node x).activeTarget? = .ok o := by
  obtain ⟨n, hn⟩ := h.active_int x hx
  exact ⟨_, Viewpoint.activeTarget?_int hn⟩

/-- A step of the search stays in the tree. -/
theorem edge_mem {b : Bool} {x w : Int} (hx : x ∈ t.arena) (hxw : t.Edge b x w) : w ∈ t.arena := by
  obtain ⟨e, he, rfl, -⟩ := hxw
  exact h.far_mem x hx e he

/-- Every node met from a root is a node of the tree. -/
theorem fromRoot_mem {b : Bool} {w : Int} (hw : FromRoot t b w) : w ∈ t.arena := by
  induction hw with
  | root hw _ => exact hw
  | edge _ hxw ih => exact h.edge_mem ih hxw

/-- **One node's visit**: over the places `is` of its connections, node `x` meets, once each and
in order, the nodes at their other ends not seen yet that a step of the search allows; they are
put in front of the seen ones. -/
theorem visit_run (b : Bool) {x : Int} (hx : x ∈ t.arena) :
    ∀ (is : List Nat) (S : List Int), (∀ i ∈ is, i < (t.node x).links.length) →
      ∃ met : List Int, visit b (t.node x) is S t = .ok (met.reverse ++ S, met.map t.node) t ∧
        met.Nodup ∧ (∀ w ∈ met, w ∉ S) ∧
        ∀ w, w ∈ met ↔ w ∉ S ∧ ∃ i ∈ is, ∃ e, (t.node x).links[i]? = some e ∧ farEnd e = w ∧
          (b = true → (t.node w).activeTarget? = .ok (some x))
  | [], S, _ => ⟨[], rfl, List.nodup_nil, by simp, by simp⟩
  | i :: is, S, hlt => by
    obtain ⟨e, he⟩ : ∃ e, (t.node x).links[i]? = some e :=
      ⟨_, List.getElem?_eq_getElem (hlt i (List.mem_cons_self ..))⟩
    have hrest : ∀ j ∈ is, j < (t.node x).links.length :=
      fun j hj => hlt j (List.mem_cons_of_mem _ hj)
    have hw := h.far_mem x hx e (List.mem_of_getElem? he)
    have hwid : (t.node (farEnd e)).id = farEnd e := h.id_eq _ hw
    have hxid : (t.node x).id = x := h.id_eq x hx
    obtain ⟨o, ho⟩ := h.exists_activeTarget hw
    -- the search steps to the other end when it is not seen and, with `onlyActive`, leads back
    by_cases hstep : farEnd e ∉ S ∧ (b = true → o = some x)
    · obtain ⟨met, hrun, hnd, hfresh, hiff⟩ := visit_run b hx is (farEnd e :: S) hrest
      refine ⟨farEnd e :: met, ?_, ?_, ?_, fun w => ?_⟩
      · have hadd : addSeen S (farEnd e) = farEnd e :: S := by simp [addSeen, hstep.1]
        cases b
        · simp [visit, bind, EStateM.bind, h.neighbor_run hx he, hwid, hstep.1, hadd, hrun,
            pure, EStateM.pure]
        · simp [visit, bind, EStateM.bind, h.neighbor_run hx he, hwid, hstep.1, hadd, hrun,
            ho, hstep.2 rfl, hxid, liftExcept, pure, EStateM.pure]
      · exact List.nodup_cons.2 ⟨fun hm => hfresh _ hm (List.mem_cons_self ..), hnd⟩
      · intro w hwm
        rcases List.mem_cons.1 hwm with rfl | hwm
        · exact hstep.1
        · exact fun hS => hfresh w hwm (List.mem_cons_of_mem _ hS)
      · constructor
        · intro hwm
          rcases List.mem_cons.1 hwm with rfl | hwm
          · exact ⟨hstep.1, i, List.mem_cons_self .., e, he, rfl, fun hb => by
              rw [ho, hstep.2 hb]⟩
          · obtain ⟨hwS, j, hj, hrest'⟩ := (hiff w).1 hwm
            exact ⟨fun hS => hwS (List.mem_cons_of_mem _ hS), j, List.mem_cons_of_mem _ hj, hrest'⟩
        · rintro ⟨hwS, j, hj, e', he', hfar, hcond⟩
          by_cases hwe : w = farEnd e
          · exact hwe ▸ List.mem_cons_self ..
          · refine List.mem_cons_of_mem _ ((hiff w).2 ⟨?_, ?_⟩)
            · rintro (_ | ⟨_, hw'⟩)
              · exact hwe rfl
              · exact hwS hw'
            · rcases List.mem_cons.1 hj with rfl | hj
              · rw [he] at he'
                cases he'
                exact absurd hfar.symm hwe
              · exact ⟨j, hj, e', he', hfar, hcond⟩
    · -- the other end is passed over
      obtain ⟨met, hrun, hnd, hfresh, hiff⟩ := visit_run b hx is S hrest
      refine ⟨met, ?_, hnd, hfresh, fun w => ?_⟩
      · by_cases hS : farEnd e ∈ S
        · simp [visit, bind, EStateM.bind, h.neighbor_run hx he, hwid, hS, hrun]
        · have hb : b = true ∧ o ≠ some x := by
            by_contra hc
            exact hstep ⟨hS, fun hb => by_contra fun ho' => hc ⟨hb, ho'⟩⟩
          obtain ⟨rfl, hox⟩ := hb
          simp [visit, bind, EStateM.bind, h.neighbor_run hx he, hwid, hS, hrun, ho, hxid, hox,
            liftExcept, pure, EStateM.pure]
      · rw [hiff]
        constructor
        · rintro ⟨hwS, j, hj, hrest'⟩
          exact ⟨hwS, j, List.mem_cons_of_mem _ hj, hrest'⟩
        · rintro ⟨hwS, j, hj, e', he', hfar, hcond⟩
          rcases List.mem_cons.1 hj with rfl | hj
          · rw [he] at he'
            cases he'
            subst hfar
            refine absurd ⟨hwS, fun hb => ?_⟩ hstep
            have := ho.symm.trans (hcond hb)
            simpa using this
          · exact ⟨hwS, j, hj, e', he', hfar, hcond⟩

/-- The seen nodes are at most the nodes of the tree. -/
theorem frontier_length_le {b : Bool} {S Q : List Int} (hf : Frontier t b S Q) :
    S.length ≤ t.arena.length :=
  (hf.nodup.subperm fun w hw => h.fromRoot_mem (hf.sound w hw)).length_le

/-- **The search**: from a `Frontier` with fuel for every node still to be seen and queued, the
search ends with exactly the nodes met from a root, each once. -/
theorem search_run (b : Bool) :
    ∀ (fuel : Nat) (S Q : List Int), Frontier t b S Q →
      t.arena.length - S.length + Q.length ≤ fuel →
      ∃ S', search b fuel S (Q.map t.node) t = .ok S' t ∧ S'.Nodup ∧
        ∀ w, w ∈ S' ↔ FromRoot t b w
  | fuel, S, [], hf, _ => by
    -- an empty queue: the seen nodes are closed under the steps, so they are all met from a root
    refine ⟨S, by cases fuel <;> rfl, hf.nodup, fun w => ⟨hf.sound w, fun hw => ?_⟩⟩
    induction hw with
    | root hw hr => exact hf.roots _ hw hr
    | edge _ hxw ih => exact hf.closed _ ih List.not_mem_nil _ hxw
  | 0, S, x :: Q, hf, hfuel => by simp at hfuel
  | fuel + 1, S, x :: Q, hf, hfuel => by
    have hxS : x ∈ S := hf.queued x (List.mem_cons_self ..)
    have hx : x ∈ t.arena := h.fromRoot_mem (hf.sound x hxS)
    obtain ⟨met, hrun, hnd, hfresh, hiff⟩ :=
      h.visit_run b hx (List.range (t.node x).links.length) S (fun i hi => List.mem_range.1 hi)
    have hiff' : ∀ w, w ∈ met ↔ w ∉ S ∧ t.Edge b x w := fun w => by
      rw [hiff, exists_getElem?_iff]
      rfl
    have hf' := hf.step hnd hfresh hiff'
    have hlen := h.frontier_length_le hf'
    have hfuel' : t.arena.length - (met.reverse ++ S).length + (Q ++ met).length ≤ fuel := by
      simp only [List.length_append, List.length_reverse, List.length_cons] at hlen hfuel ⊢
      omega
    obtain ⟨S', hS', hnd', hiff''⟩ := search_run b fuel _ _ hf' hfuel'
    refine ⟨S', ?_, hnd', hiff''⟩
    simp only [List.map_cons, search, bind, EStateM.bind, hrun]
    rw [← List.map_append]
    exact hS'

/-- **The search from the roots** marks exactly the nodes met from a root, each once, and changes
nothing. -/
theorem reached_run (b : Bool) :
    ∃ S, reached b t = .ok S t ∧ S.Nodup ∧ ∀ w, w ∈ S ↔ FromRoot t b w := by
  -- the roots, in the order of the arena
  set R := t.arena.filter fun id => (t.node id).isRoot with hR
  have hRnd : R.Nodup := h.nodup.filter _
  have hRmem : ∀ w, w ∈ R ↔ w ∈ t.arena ∧ (t.node w).isRoot = true := fun w => by
    simp [hR]
  have hroots : (t.arena.map t.node).filter (·.isRoot) = R.map t.node := by
    rw [hR, List.filter_map]
    rfl
  have hids : (R.map t.node).map (·.id) = R := by
    rw [List.map_map]
    conv_rhs => rw [← List.map_id R]
    exact List.map_congr_left fun id hid => h.id_eq id ((hRmem id).1 hid).1
  have hseen : (R.map t.node).foldl (fun seen v => addSeen seen v.id) [] = R.reverse :=
    calc (R.map t.node).foldl (fun seen v => addSeen seen v.id) []
        = ((R.map t.node).map (·.id)).foldl addSeen [] := List.foldl_map.symm
      _ = R.reverse := by rw [hids, foldl_addSeen hRnd (by simp), List.append_nil]
  have hf : Frontier t b R.reverse R := by
    refine ⟨List.nodup_reverse.2 hRnd, fun w hw => ?_, fun w hw hr => ?_, fun x hx => ?_, hRnd,
      fun x hx hxR => ?_⟩
    · obtain ⟨hw, hr⟩ := (hRmem w).1 (List.mem_reverse.1 hw)
      exact .root hw hr
    · exact List.mem_reverse.2 ((hRmem w).2 ⟨hw, hr⟩)
    · exact List.mem_reverse.2 hx
    · exact absurd (List.mem_reverse.1 hx) hxR
  have hRlen : R.length ≤ t.arena.length := List.length_filter_le _ _
  obtain ⟨S, hS, hnd, hiff⟩ := h.search_run b (t.arena.length + 1) _ _ hf (by simp; omega)
  refine ⟨S, ?_, hnd, hiff⟩
  simp only [reached, bind, EStateM.bind, points_run, List.length_map, hroots, hseen]
  exact hS

/-- Met over any connection, the nodes met from a root are those joined to one: connections are
held at both ends, so a step can be taken either way. -/
theorem fromRoot_false_iff {w : Int} : FromRoot t false w ↔ JoinedIn t (fun _ => True) w := by
  constructor
  · intro hw
    induction hw with
    | root hw hr => exact .root hw trivial hr
    | @edge x w hx hxw ih =>
      obtain ⟨e, he, rfl, -⟩ := hxw
      have hx' := h.fromRoot_mem hx
      refine .step (h.far_mem x hx' e he) trivial (h.mirror x hx' e he) ?_
      rw [farEnd_flip, h.near x hx' e he]
      exact ih
  · intro hw
    induction hw with
    | root hw _ hr => exact .root hw hr
    | @step id e hid _ he _ ih =>
      exact .edge ih ⟨(!e.1, e.2), h.mirror id hid e he, by rw [farEnd_flip, h.near id hid e he],
        by simp⟩

/-- Met over active connections that lead back, the nodes met from a root are those whose active
chain reaches the root. -/
theorem fromRoot_true_iff {w : Int} : FromRoot t true w ↔ ∃ k, ReachesRoot t w k := by
  constructor
  · intro hw
    induction hw with
    | root hw hr => exact ⟨0, .root hw trivial hr⟩
    | @edge x w hx hxw ih =>
      obtain ⟨k, hk⟩ := ih
      have hwm := h.edge_mem (h.fromRoot_mem hx) hxw
      obtain ⟨-, -, -, hp⟩ := hxw
      -- a node flagged root ends its chain at once
      cases hr : (t.node w).isRoot
      · exact ⟨k + 1, .step hwm trivial hr (hp rfl) hk⟩
      · exact ⟨0, .root hwm trivial hr⟩
  · rintro ⟨k, hk⟩
    induction hk with
    | root hid _ hr => exact .root hid hr
    | @step id p k hid _ _ hp _ ih =>
      obtain ⟨e, he, -, hfar⟩ := Viewpoint.activeLink?_of_target hp
      refine .edge ih ⟨(!e.1, e.2), hfar ▸ h.mirror id hid e he,
        by rw [farEnd_flip, h.near id hid e he], fun _ => hp⟩

end Symmetric

end ViewpointTree

end Exploration
