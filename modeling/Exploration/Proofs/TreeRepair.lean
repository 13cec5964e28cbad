import Mathlib
import Exploration.Proofs.SubtreeValue
import Exploration.Proofs.TreeSearch

/-!
# Repairing the active connections

`repair` points every node whose active chain does not reach the root at a neighbour whose chain
does, round after round. The nodes whose chain reaches the root are kept in a list `S` whose
chains stay inside `S` (`Attached`); a round takes the pending nodes in order and points each one
that has a neighbour in `S` at the first such neighbour, which puts it into `S`.

A round that attaches nothing leaves no pending node joined to the root: a pending node joined to
the root has a path of connections to it, and the first node of `S` on that path has a pending
neighbour (`mem_of_isolated`). So the rounds stop within the fuel the repair gives them, having
attached exactly the nodes joined to the root whose chain did not reach it; every other node keeps
its active value, and afterwards every node joined to the root has a chain to it
(`repairRounds_run`). Only active values change (`Trim` with nothing dropped). The searches and the
rounds need no more than connections held at both ends (`Symmetric`).

Main statements: `repair_attaches_joined_nodes`, `Symmetric.repair_run` (a tree joined to its
root) and `Symmetric.repair_run_of_reaches` (a tree whose chains all reach the root).
-/

namespace Exploration

namespace ViewpointTree

/-- The nodes of `S` are distinct, every node flagged root is among them, and the active chain
of each reaches the root without leaving `S`. -/
structure Attached (t : ViewpointTree) (S : List Int) : Prop where
  nodup : S.Nodup
  roots : ∀ w ∈ t.arena, (t.node w).isRoot = true → w ∈ S
  chain : ∀ s ∈ S, ∃ k, ChainIn t (· ∈ S) s k

/-- A chain to the root passes only through nodes whose chain reaches the root. -/
theorem ReachesRoot.chainIn_reaching {t : ViewpointTree} {s : Int} {k : Nat}
    (h : ReachesRoot t s k) : ChainIn t (fun w => ∃ j, ReachesRoot t w j) s k := by
  induction h with
  | root hid _ hr => exact .root hid ⟨0, .root hid trivial hr⟩ hr
  | step hid _ hr hp hchain ih => exact .step hid ⟨_, .step hid trivial hr hp hchain⟩ hr hp ih

/-- When no node outside `S` has a neighbour in `S`, every node joined to a root is in `S`. -/
theorem mem_of_isolated {t : ViewpointTree} {S : List Int} (hA : Attached t S)
    (hiso : ∀ x ∈ t.arena, x ∉ S → ∀ e ∈ (t.node x).links, farEnd e ∉ S) {x : Int}
    (hx : JoinedIn t (fun _ => True) x) : x ∈ S := by
  induction hx with
  | root hid _ hr => exact hA.roots _ hid hr
  | step hid _ he _ ih =>
    by_contra hxS
    exact hiso _ hid hxS _ he ih

namespace Stored

variable {t : ViewpointTree} (h : Stored t)
include h

/-- Storing a viewpoint that carries a node's identity replaces that node. -/
theorem put_node_run {u : Int} (hu : u ∈ t.arena) {w : Viewpoint}
    (hs : w.serial = (t.node u).serial) : put w t = .ok () (t.setNode u w) := by
  rw [put_run, hs, h.serial_eq u hu]
  rfl

end Stored

namespace Symmetric

variable {t : ViewpointTree} (h : Symmetric t)
include h

/-- The search for a connection whose other end is in `S`, over the places `is`: it finds one,
or none of them has its other end in `S`. -/
theorem firstSeen_run (S : List Int) {x : Int} (hx : x ∈ t.arena) :
    ∀ (is : List Nat), (∀ i ∈ is, i < (t.node x).links.length) →
      (firstSeen S (t.node x) is t = .ok none t ∧
        ∀ i ∈ is, ∀ e, (t.node x).links[i]? = some e → farEnd e ∉ S) ∨
      ∃ i ∈ is, ∃ e, (t.node x).links[i]? = some e ∧ farEnd e ∈ S ∧
        firstSeen S (t.node x) is t = .ok (some i) t
  | [], _ => .inl ⟨rfl, by simp⟩
  | i :: is, hlt => by
    obtain ⟨e, he⟩ : ∃ e, (t.node x).links[i]? = some e :=
      ⟨_, List.getElem?_eq_getElem (hlt i (List.mem_cons_self ..))⟩
    have hw := h.far_mem x hx e (List.mem_of_getElem? he)
    have hrun : firstSeen S (t.node x) (i :: is) t =
        if farEnd e ∈ S then .ok (some i) t else firstSeen S (t.node x) is t := by
      simp only [firstSeen, bind, EStateM.bind, h.neighbor_run hx he, h.id_eq _ hw,
        List.contains_iff_mem]
      split <;> rfl
    by_cases hS : farEnd e ∈ S
    · exact .inr ⟨i, List.mem_cons_self .., e, he, hS, by rw [hrun, if_pos hS]⟩
    · rw [hrun, if_neg hS]
      rcases firstSeen_run S hx is fun j hj => hlt j (List.mem_cons_of_mem _ hj) with
        ⟨hnone, hall⟩ | ⟨j, hj, e', he', hS', hsome⟩
      · refine .inl ⟨hnone, fun j hj e' he' => ?_⟩
        rcases List.mem_cons.1 hj with rfl | hj
        · rw [he] at he'
          cases he'
          exact hS
        · exact hall j hj e' he'
      · exact .inr ⟨j, List.mem_cons_of_mem _ hj, e', he', hS', hsome⟩

/-- **Attaching one node**: pointing a node outside `S` at a neighbour in `S` puts it into `S`,
keeps the chains of `S`, and changes nothing else. -/
theorem attached_setActive {S : List Int} (hA : Attached t S) {x : Int} (hx : x ∈ t.arena)
    (hxS : x ∉ S) {i : Nat} {e : Bool × Link} (he : (t.node x).links[i]? = some e)
    (heS : farEnd e ∈ S) :
    Attached (t.setNode x { t.node x with active := .int i }) (x :: S) := by
  have hread := fun id (hid : id ∈ t.arena) => h.node_setNode hx hid
    { t.node x with active := .int i }
  have hr : (t.node x).isRoot = false := by
    cases hxr : (t.node x).isRoot
    · rfl
    · exact absurd (hA.roots x hx hxr) hxS
  have hlt : i < (t.node x).links.length := (List.getElem?_eq_some_iff.1 he).1
  have htarget : ({ t.node x with active := .int i } : Viewpoint).activeTarget? =
      .ok (some (farEnd e)) := by
    rw [Viewpoint.activeTarget?_int rfl]
    simp [hlt, (List.getElem?_eq_some_iff.1 he).2]
  refine ⟨List.nodup_cons.2 ⟨hxS, hA.nodup⟩, fun w hw hwr => ?_, fun s hs' => ?_⟩
  · rw [setNode_arena] at hw
    rw [hread w hw] at hwr
    by_cases hwx : w = x
    · subst hwx
      simp [hr] at hwr
    · rw [if_neg hwx] at hwr
      exact List.mem_cons_of_mem _ (hA.roots w hw hwr)
  · -- the chains of `S` avoid `x`, so they read the same; `x` now leads into `S`
    have hkeep : ∀ {s}, s ∈ S → ∃ k, ChainIn (t.setNode x { t.node x with active := .int i })
        (· ∈ x :: S) s k := by
      intro s hs''
      obtain ⟨k, hk⟩ := hA.chain s hs''
      have hne : ∀ w, w ∈ S → w ≠ x := fun w hw hwx => hxS (hwx ▸ hw)
      have hk' : ChainIn (t.setNode x { t.node x with active := .int i }) (· ∈ S) s k :=
        hk.transfer (fun w hw _ => hw) (fun w hw hwS => by rw [hread w hw, if_neg (hne w hwS)])
          fun w hw hwS _ => by rw [hread w hw, if_neg (hne w hwS)]
      exact ⟨k, hk'.mono fun w hw => List.mem_cons_of_mem _ hw⟩
    rcases List.mem_cons.1 hs' with rfl | hs''
    · obtain ⟨k, hk⟩ := hkeep heS
      refine ⟨k + 1, .step hx (List.mem_cons_self ..) ?_ ?_ hk⟩
      · rw [hread _ hx, if_pos rfl]
        exact hr
      · rw [hread _ hx, if_pos rfl]
        exact htarget
    · exact hkeep hs''

end Symmetric

/-- A node whose chain reaches the root is joined to it: the chain runs over connections the
nodes hold. -/
theorem Symmetric.joinedIn_of_chainIn {t : ViewpointTree} {S : Int → Prop} {s : Int} {k : Nat}
    (hc : ChainIn t S s k) : JoinedIn t (fun _ => True) s := by
  induction hc with
  | root hid _ hr => exact .root hid trivial hr
  | step hid _ _ hp _ ih =>
    obtain ⟨e, he, -, rfl⟩ := Viewpoint.activeLink?_of_target hp
    exact .step hid trivial he ih

/-- **One round of the repair**, over distinct pending nodes outside `S`: the nodes it attaches
join `S` in front, in reverse order of attaching, and the nodes it leaves pending had no
neighbour in `S` when the round began. Only the active values of the nodes attached change. -/
theorem attachRound_run : ∀ (ids S : List Int) (t : ViewpointTree), Symmetric t → Attached t S →
    ids.Nodup → (∀ x ∈ ids, x ∈ t.arena ∧ x ∉ S) →
    ∃ (att later : List Int) (t' : ViewpointTree),
      attachRound ids S t = .ok (att.reverse ++ S, att.length, later) t' ∧
      Trim t t' (fun _ => true) ∧ (∀ x ∈ t.arena, x ∉ att → (t'.node x).active = (t.node x).active) ∧
      Attached t' (att.reverse ++ S) ∧ (∀ x, x ∈ ids ↔ x ∈ att ∨ x ∈ later) ∧ later.Nodup ∧
      (∀ x ∈ later, x ∉ att) ∧ ∀ x ∈ later, ∀ e ∈ (t.node x).links, farEnd e ∉ S
  | [], S, t, ht, hA, _, _ => ⟨[], [], t, rfl, Trim.refl ht.active_int, fun _ _ _ => rfl, hA,
      by simp, List.nodup_nil, by simp, by simp⟩
  | x :: xs, S, t, ht, hA, hnd, hids => by
    obtain ⟨hx, hxS⟩ := hids x (List.mem_cons_self ..)
    have hxs : ∀ y ∈ xs, y ∈ t.arena ∧ y ∉ S := fun y hy => hids y (List.mem_cons_of_mem _ hy)
    obtain ⟨hxnot, hndxs⟩ := List.nodup_cons.1 hnd
    have hget : t.objects.getD (t.slots.getD x 0) default = t.node x := rfl
    rcases ht.firstSeen_run S hx (List.range (t.node x).links.length)
        (fun i hi => List.mem_range.1 hi) with ⟨hnone, hall⟩ | ⟨i, -, e, he, heS, hsome⟩
    · -- no neighbour in `S`: the node stays pending
      obtain ⟨att, later, t', hrun, htrim, hframe, hA', hmem, hndl, hdisj, hiso⟩ :=
        attachRound_run xs S t ht hA hndxs hxs
      have hlater : ∀ y ∈ later, y ∈ xs := fun y hy => (hmem y).2 (.inr hy)
      have hatt : ∀ y ∈ att, y ∈ xs := fun y hy => (hmem y).2 (.inl hy)
      refine ⟨att, x :: later, t', ?_, htrim, hframe, hA', fun y => ?_,
        List.nodup_cons.2 ⟨fun h' => hxnot (hlater x h'), hndl⟩, fun y hy => ?_, fun y hy => ?_⟩
      · simp only [attachRound, bind, EStateM.bind, ht.slot_run hx, get_run, hget, hnone, hrun,
          pure, EStateM.pure]
      · simp only [List.mem_cons, hmem]
        tauto
      · rcases List.mem_cons.1 hy with rfl | hy
        · exact fun h' => hxnot (hatt y h')
        · exact hdisj y hy
      · rcases List.mem_cons.1 hy with rfl | hy
        · intro e he
          obtain ⟨i, hi, rfl⟩ := List.getElem_of_mem he
          exact hall i (List.mem_range.2 hi) _ (List.getElem?_eq_getElem hi)
        · exact hiso y hy
    · -- a neighbour in `S`: the node is pointed at it and joins `S`
      have hread := fun id (hid : id ∈ t.arena) => ht.node_setNode hx hid
        { t.node x with active := .int i }
      have htrim₁ := ht.trim_setActive hx ht.active_int i
      have hxs₁ : ∀ y ∈ xs, y ∈ (t.setNode x { t.node x with active := .int i }).arena ∧
          y ∉ x :: S := fun y hy =>
        ⟨(hxs y hy).1, by
          rintro (_ | ⟨_, hyS⟩)
          · exact hxnot hy
          · exact (hxs y hy).2 hyS⟩
      obtain ⟨att, later, t', hrun, htrim, hframe, hA', hmem, hndl, hdisj, hiso⟩ :=
        attachRound_run xs (x :: S) _ (htrim₁.symmetric ht) (ht.attached_setActive hA hx hxS he heS)
          hndxs hxs₁
      have hlater : ∀ y ∈ later, y ∈ xs := fun y hy => (hmem y).2 (.inr hy)
      have hseen : (x :: att).reverse ++ S = att.reverse ++ x :: S := by simp
      refine ⟨x :: att, later, t', ?_, htrim₁.trans htrim, fun y hy hyatt => ?_, hseen ▸ hA',
        fun y => ?_, hndl, fun y hy => ?_, fun y hy => ?_⟩
      · have hadd : addSeen S (t.node x).id = x :: S := by
          simp [addSeen, ht.id_eq x hx, hxS]
        have hput : put { t.node x with active := .int i } t =
            .ok () (t.setNode x { t.node x with active := .int i }) := ht.put_node_run hx rfl
        simp only [attachRound, bind, EStateM.bind, ht.slot_run hx, get_run, hget, hsome, hput,
          hadd, hrun, pure, EStateM.pure, hseen, List.length_cons]
      · -- a node attached neither now nor later keeps its active value
        have hyx : y ≠ x := fun hyx => hyatt (hyx ▸ List.mem_cons_self ..)
        rw [hframe y hy fun h' => hyatt (List.mem_cons_of_mem _ h'), hread y hy, if_neg hyx]
      · simp only [List.mem_cons, hmem]
        tauto
      · intro hy'
        rcases List.mem_cons.1 hy' with hyx | hy'
        · exact hxnot (hyx ▸ hlater y hy)
        · exact hdisj y hy hy'
      · intro e he' heS'
        have hyx : y ≠ x := fun hyx => hxnot (hyx ▸ hlater y hy)
        have := hiso y hy e
        rw [hread y (hxs y (hlater y hy)).1, if_neg hyx] at this
        exact this he' (List.mem_cons_of_mem _ heS')

/-- **The rounds of the repair.** While nodes are pending, a round either attaches some, and the
rounds go on with one pending node fewer at least, or attaches none, and then no pending node is
joined to the root: the first node of `S` on a path of connections from it would have had a
pending neighbour (`mem_of_isolated`). So the rounds end within the fuel; the nodes attached are
exactly the pending nodes joined to the root, the others keep their active values, and every node
joined to the root ends with a chain to it. -/
theorem repairRounds_run : ∀ (fuel : Nat) (S P : List Int) (a : Nat) (t : ViewpointTree),
    Symmetric t → Attached t S → P.Nodup → (∀ x ∈ P, x ∈ t.arena ∧ x ∉ S) →
    (∀ x ∈ t.arena, x ∈ S ∨ x ∈ P) → P.length < fuel →
    ∃ (att : List Int) (t' : ViewpointTree), repairRounds fuel S P a t = .ok (a + att.length) t' ∧
      Trim t t' (fun _ => true) ∧ att.Nodup ∧
      (∀ x, x ∈ att ↔ x ∈ P ∧ JoinedIn t (fun _ => True) x) ∧
      (∀ x ∈ t.arena, x ∉ att → (t'.node x).active = (t.node x).active) ∧
      ∀ x ∈ t.arena, JoinedIn t (fun _ => True) x → ∃ k, ReachesRoot t' x k
  | 0, _, _, _, _, _, _, _, _, _, hfuel => absurd hfuel (Nat.not_lt_zero _)
  | fuel + 1, S, P, a, t, ht, hA, hnd, hP, hcover, hfuel => by
    by_cases hPe : P = []
    · -- nothing pending: every node is in `S`, so its chain reaches the root
      subst hPe
      refine ⟨[], t, rfl, Trim.refl ht.active_int, List.nodup_nil, by simp, fun _ _ _ => rfl,
        fun x hx _ => ?_⟩
      obtain ⟨k, hk⟩ := hA.chain x ((hcover x hx).resolve_right List.not_mem_nil)
      exact ⟨k, hk.mono fun _ _ => trivial⟩
    obtain ⟨att, later, t', hrun, htrim, hframe, hA', hmem, hndl, hdisj, hiso⟩ :=
      attachRound_run P S t ht hA hnd hP
    have ht' : Symmetric t' := htrim.symmetric ht
    have harena : t'.arena = t.arena := htrim.arena
    -- the nodes attached this round are joined to the root: their chains reach it
    have hattJ : ∀ x ∈ att, JoinedIn t (fun _ => True) x := fun x hx => by
      obtain ⟨k, hk⟩ := hA'.chain x (List.mem_append_left _ (List.mem_reverse.2 hx))
      exact htrim.joinedIn_iff.1 (Symmetric.joinedIn_of_chainIn hk)
    by_cases hatt : att = []
    · -- a round that attaches nothing leaves every pending node isolated from `S`
      subst hatt
      have hiso' : ∀ x ∈ t.arena, x ∉ S → ∀ e ∈ (t.node x).links, farEnd e ∉ S := by
        intro x hx hxS
        exact hiso x (((hmem x).1 ((hcover x hx).resolve_left hxS)).resolve_left List.not_mem_nil)
      have hjS : ∀ x, JoinedIn t (fun _ => True) x → x ∈ S := fun x hx => mem_of_isolated hA hiso' hx
      refine ⟨[], t', ?_, htrim, List.nodup_nil, fun x => ?_, fun x hx _ => hframe x hx List.not_mem_nil,
        fun x _ hj => ?_⟩
      · simp only [repairRounds, List.isEmpty_eq_false_iff.2 hPe, Bool.false_eq_true, if_false,
          bind, EStateM.bind, hrun, List.length_nil, beq_self_eq_true, if_true, pure, EStateM.pure,
          Nat.add_zero]
      · simp only [List.not_mem_nil, false_iff, not_and]
        exact fun hxP hj => (hP x hxP).2 (hjS x hj)
      · obtain ⟨k, hk⟩ := hA'.chain x (by simpa using hjS x hj)
        exact ⟨k, hk.mono fun _ _ => trivial⟩
    have hlater : ∀ x ∈ later, x ∈ P := fun x hx => (hmem x).2 (.inr hx)
    obtain ⟨y, hy⟩ := List.exists_mem_of_ne_nil att hatt
    have hlen : later.length < fuel := by
      have hsub : later.Subperm (P.erase y) := hndl.subperm fun x hx =>
        (List.mem_erase_of_ne fun hxy : x = y => hdisj x hx (hxy ▸ hy)).2 (hlater x hx)
      have hle := hsub.length_le
      have hpos := List.length_pos_of_mem ((hmem y).2 (.inl hy))
      rw [List.length_erase_of_mem ((hmem y).2 (.inl hy))] at hle
      omega
    have hlater' : ∀ x ∈ later, x ∈ t'.arena ∧ x ∉ att.reverse ++ S := by
      intro x hx
      refine ⟨harena ▸ (hP x (hlater x hx)).1, fun hx' => ?_⟩
      rcases List.mem_append.1 hx' with hx' | hx'
      · exact hdisj x hx (List.mem_reverse.1 hx')
      · exact (hP x (hlater x hx)).2 hx'
    have hcover' : ∀ x ∈ t'.arena, x ∈ att.reverse ++ S ∨ x ∈ later := by
      intro x hx
      rw [harena] at hx
      rcases hcover x hx with hxS | hxP
      · exact .inl (List.mem_append_right _ hxS)
      · rcases (hmem x).1 hxP with hxa | hxl
        · exact .inl (List.mem_append_left _ (List.mem_reverse.2 hxa))
        · exact .inr hxl
    obtain ⟨att₂, t'', hrun', htrim', hnd₂, hmem₂, hframe₂, hreach⟩ :=
      repairRounds_run fuel _ later (a + att.length) t' ht' hA' hndl hlater' hcover' hlen
    refine ⟨att ++ att₂, t'', ?_, htrim.trans htrim', ?_, fun x => ?_, fun x hx hx' => ?_,
      fun x hx hj => hreach x (harena ▸ hx) (htrim.joinedIn_iff.2 hj)⟩
    · have hn : (att.length == 0) = false := by
        simp [List.length_eq_zero_iff, hatt]
      simp only [repairRounds, List.isEmpty_eq_false_iff.2 hPe, Bool.false_eq_true, if_false,
        bind, EStateM.bind, hrun, hn, hrun', List.length_append, Nat.add_assoc]
    · -- the nodes attached later were pending after this round, so not attached in it
      have hnd₁ : att.Nodup := List.nodup_reverse.1 (List.nodup_append.1 hA'.nodup).1
      exact List.nodup_append.2 ⟨hnd₁, hnd₂, fun u hu w hw huw =>
        hdisj w ((hmem₂ w).1 hw).1 (huw ▸ hu)⟩
    · rw [List.mem_append, hmem₂, htrim.joinedIn_iff]
      constructor
      · rintro (hx | ⟨hx, hj⟩)
        · exact ⟨(hmem x).2 (.inl hx), hattJ x hx⟩
        · exact ⟨hlater x hx, hj⟩
      · rintro ⟨hxP, hj⟩
        rcases (hmem x).1 hxP with hx | hx
        · exact .inl hx
        · exact .inr ⟨hx, hj⟩
    · rw [hframe₂ x (harena ▸ hx) fun h' => hx' (List.mem_append_right _ h'),
        hframe x hx fun h' => hx' (List.mem_append_left _ h')]

/-- The nodes whose chain reaches the root, as the search over active connections marks them,
stay among themselves along their chains. -/
theorem attached_reached {t : ViewpointTree} {S : List Int} (hnd : S.Nodup)
    (hS : ∀ w, w ∈ S ↔ ∃ k, ReachesRoot t w k) : Attached t S := by
  refine ⟨hnd, fun w hw hr => (hS w).2 ⟨0, .root hw trivial hr⟩, fun s hs => ?_⟩
  obtain ⟨k, hk⟩ := (hS s).1 hs
  exact ⟨k, hk.chainIn_reaching.mono fun w hw => (hS w).2 hw⟩

namespace Symmetric

variable {t : ViewpointTree} (h : Symmetric t)
include h

/-- The repair searches the nodes whose chain reaches the root, `S`, and takes the others as
pending, `P`, in the order of the arena; it then runs a round for each pending node and one
more. -/
theorem repair_eq : ∃ S P : List Int, Attached t S ∧ P.Nodup ∧
    (∀ x, x ∈ P ↔ x ∈ t.arena ∧ ¬ ∃ k, ReachesRoot t x k) ∧ (∀ x ∈ t.arena, x ∈ S ∨ x ∈ P) ∧
    (∀ x ∈ P, x ∈ t.arena ∧ x ∉ S) ∧ repair t = repairRounds (P.length + 1) S P 0 t := by
  obtain ⟨S, hrun, hnd, hiff⟩ := h.reached_run true
  have hS : ∀ w, w ∈ S ↔ ∃ k, ReachesRoot t w k := fun w => (hiff w).trans h.fromRoot_true_iff
  have hpending : (t.arena.map t.node).filterMap
      (fun v => if S.contains v.id then none else some v.id) =
      t.arena.filter fun id => !S.contains id := by
    rw [List.filterMap_map, ← List.filterMap_eq_filter]
    refine List.filterMap_congr fun id hid => ?_
    simp only [Function.comp_apply, h.id_eq id hid]
    by_cases hc : id ∈ S <;> simp [Option.guard, hc]
  have hP : ∀ x, x ∈ t.arena.filter (fun id => !S.contains id) ↔ x ∈ t.arena ∧ x ∉ S := by simp
  refine ⟨S, _, attached_reached hnd hS, h.nodup.filter _, fun x => by rw [hP, hS],
    fun x hx => ?_, fun x hx => (hP x).1 hx, ?_⟩
  · by_cases hxS : x ∈ S
    · exact .inl hxS
    · exact .inr ((hP x).2 ⟨hx, hxS⟩)
  · simp only [repair, bind, EStateM.bind, hrun, points_run, hpending]

/-- **The repair of a tree joined to its root** leaves every node with an active chain to the
root; only active values change. -/
theorem repair_run (hJ : ∀ x ∈ t.arena, JoinedIn t (fun _ => True) x) :
    ∃ n t', repair t = .ok n t' ∧ Trim t t' (fun _ => true) ∧
      ∀ x ∈ t'.arena, ∃ k, ReachesRoot t' x k := by
  obtain ⟨S, P, hA, hnd, -, hcover, hP, hrun⟩ := h.repair_eq
  obtain ⟨att, t', hrun', htrim, -, -, -, hreach⟩ :=
    repairRounds_run _ S P 0 t h hA hnd hP hcover (Nat.lt_succ_self _)
  refine ⟨_, t', hrun.trans hrun', htrim, fun x hx => ?_⟩
  rw [htrim.arena] at hx
  exact hreach x hx (hJ x hx)

/-- Where every chain already reaches the root, the repair changes nothing. -/
theorem repair_run_of_reaches (hR : ∀ x ∈ t.arena, ∃ k, ReachesRoot t x k) :
    repair t = .ok 0 t := by
  obtain ⟨S, P, -, -, hPiff, -, -, hrun⟩ := h.repair_eq
  have hnil : P = [] := List.eq_nil_iff_forall_not_mem.2 fun x hx =>
    ((hPiff x).1 hx).2 (hR x ((hPiff x).1 hx).1)
  rw [hrun, hnil]
  rfl

end Symmetric

/-- **The repair.** On a tree whose connections are held at both ends and whose active values are
whole numbers, the repair ends and changes only active values. It returns the number of nodes it
points anew, which are exactly the nodes joined to a root by connections whose active chain did
not reach one. Every other node keeps its active value: those whose chain reached the root, and
those joined to no root. Afterwards every node joined to a root has an active chain to a root,
so without a cycle (`ChainIn.lt_length`). With one node flagged root, that node is the root. -/
theorem repair_attaches_joined_nodes {t : ViewpointTree} (h : Symmetric t) :
    ∃ (att : List Int) (t' : ViewpointTree), repair t = .ok att.length t' ∧
      Trim t t' (fun _ => true) ∧ att.Nodup ∧
      (∀ x, x ∈ att ↔ x ∈ t.arena ∧ JoinedIn t (fun _ => True) x ∧ ¬ ∃ k, ReachesRoot t x k) ∧
      (∀ x ∈ t.arena, x ∉ att → (t'.node x).active = (t.node x).active) ∧
      ∀ x ∈ t.arena, JoinedIn t (fun _ => True) x → ∃ k, ReachesRoot t' x k := by
  obtain ⟨S, P, hA, hnd, hPiff, hcover, hP, hrun⟩ := h.repair_eq
  obtain ⟨att, t', hrun', htrim, hnd', hmem, hframe, hreach⟩ :=
    repairRounds_run _ S P 0 t h hA hnd hP hcover (Nat.lt_succ_self _)
  refine ⟨att, t', by rw [hrun, hrun', Nat.zero_add], htrim, hnd', fun x => ?_, hframe, hreach⟩
  rw [hmem, hPiff]
  tauto

open LocalPlanner in
theorem rootAndLeaf_symmetric : rootAndLeaf.Symmetric where
  toStored := rootAndLeaf_forest.toStored
  active_int id hid := by
    have hid' : id = 0 ∨ id = 1 := by simpa [rootAndLeaf] using hid
    rcases hid' with rfl | rfl
    · exact ⟨-1, by simp [node, rootAndLeaf, Std.HashMap.getD_insert, leafRoot]⟩
    · exact ⟨0, by simp [node, rootAndLeaf, leaf]⟩
  near := rootAndLeaf_forest.near
  far_mem := rootAndLeaf_forest.far_mem
  mirror := rootAndLeaf_forest.mirror

open LocalPlanner in
/-- `rootAndLeaf` with the leaf's active connection undefined: the leaf is joined to the root,
but its chain does not reach it. -/
def looseLeaf : ViewpointTree :=
  rootAndLeaf.setNode 1 { rootAndLeaf.node 1 with active := .int (-1) }

theorem looseLeaf_symmetric : looseLeaf.Symmetric :=
  (rootAndLeaf_symmetric.trim_setActive (by simp [LocalPlanner.rootAndLeaf])
    rootAndLeaf_symmetric.active_int (-1)).symmetric rootAndLeaf_symmetric

theorem repair_attaches_loose_leaf : looseLeaf.Symmetric ∧
    ∃ (att : List Int) (t' : ViewpointTree), repair looseLeaf = .ok att.length t' ∧
      Trim looseLeaf t' (fun _ => true) ∧ att.Nodup ∧
      (∀ x, x ∈ att ↔ x ∈ looseLeaf.arena ∧ JoinedIn looseLeaf (fun _ => True) x ∧
        ¬ ∃ k, ReachesRoot looseLeaf x k) ∧
      (∀ x ∈ looseLeaf.arena, x ∉ att → (t'.node x).active = (looseLeaf.node x).active) ∧
      ∀ x ∈ looseLeaf.arena, JoinedIn looseLeaf (fun _ => True) x → ∃ k, ReachesRoot t' x k :=
  ⟨looseLeaf_symmetric, repair_attaches_joined_nodes looseLeaf_symmetric⟩

end ViewpointTree

end Exploration
