import Mathlib
import Exploration.Proofs.MapHistory

/-!
# Settings read back

A group of settings is written out as the object of its names and values (`Settings.toValue`);
a settings file holds that object, and the planner reads it back with `Settings.read`. Reading
it gives the very same group (`Settings.read_toValue`), value for value and kind of number for
kind of number:

* the written object names every setting of the group once, in the group's order, so reading
  picks each written value and no default (`map_pick`, `read_names`);
* the check changes nothing the second time (`check_check`): it returns the entries of the
  planners and the sensor as they are, and for the map it only puts the corner in doubles and the
  sizes in integers, which a second reading leaves as they are.
-/

namespace Exploration

namespace Settings

/-- The entries of the map settings with the corner and the sizes put in. -/
def withAxes (corner : List Float) (sizes : List Int) (x : String × Value) : String × Value :=
  if (x.1 == "origin") = true then (x.1, Value.nums corner)
  else if (x.1 == "dimensions") = true then (x.1, Value.ints sizes) else x

@[simp] theorem withAxes_name (corner : List Float) (sizes : List Int) (x : String × Value) :
    (withAxes corner sizes x).1 = x.1 := by
  unfold withAxes
  split_ifs <;> rfl

/-- Putting the corner and the sizes in twice is putting them in once. -/
@[simp] theorem withAxes_withAxes (corner : List Float) (sizes : List Int) (x : String × Value) :
    withAxes corner sizes (withAxes corner sizes x) = withAxes corner sizes x := by
  unfold withAxes
  split_ifs <;> simp_all

/-! ## Walking the corner and the sizes -/

/-- Walking a value yields as many items as its size counts. -/
theorem walk_length {v : Value} {xs : List Value} {n : Nat} (hw : walk v = .ok xs)
    (hn : v.size = .ok n) : xs.length = n := by
  cases v with
  | str s =>
    cases hw
    cases hn
    simp [String.length_toList]
  | list ys =>
    cases hw
    cases hn
    rfl
  | dict kvs =>
    cases hw
    cases hn
    simp
  | null | bool _ | int _ | num _ => cases hw

/-- Items written by `f` are read back as themselves by a reader that undoes `f`. -/
theorem mapM_map_of_read {ε α β : Type} {f : α → β} {g : β → Except ε α}
    (hread : ∀ x, g (f x) = .ok x) (xs : List α) : (xs.map f).mapM g = .ok xs := by
  induction xs with
  | nil => rfl
  | cons x xs ih =>
    rw [List.map_cons, List.mapM_cons, hread, ih]
    rfl

/-! ## The check -/

/-- A loop of positivity checks passes when every name it checks is positive. -/
theorem forIn_requirePositive_of (entries : List (String × Value)) :
    ∀ names : List String,
      (∀ name ∈ names, Value.lessThan (.int 0) (lookup entries name) = .ok true) →
      forIn (m := Except Error) names PUnit.unit (fun name _ => do
        requirePositive entries name
        pure (ForInStep.yield PUnit.unit)) = .ok PUnit.unit
  | [], _ => rfl
  | name :: names, hpos => by
    have hname : requirePositive entries name = .ok () := by
      simp [requirePositive, hpos name List.mem_cons_self, bind, Except.bind]
    rw [List.forIn_cons, hname]
    exact forIn_requirePositive_of entries names fun n hn => hpos n (List.mem_cons_of_mem _ hn)

/-- The checks of the planners and the sensor return the entries as they are. -/
theorem check_eq_self {kind : SettingsKind} (hk : kind ≠ .map) {e e' : List (String × Value)}
    (h : check kind e = .ok e') : e' = e := by
  unfold check at h
  obtain ⟨u, -, h⟩ := bind_eq_ok.1 h
  cases kind with
  | map => exact absurd rfl hk
  | globalSearch => exact (Except.ok.inj h).symm
  | localPlanner =>
    obtain ⟨neg, -, h⟩ := bind_eq_ok.1 h
    cases neg
    · obtain ⟨above, -, h⟩ := bind_eq_ok.1 h
      cases above
      · exact (Except.ok.inj h).symm
      · cases h
    · cases h
  | lidar =>
    obtain ⟨below, -, h⟩ := bind_eq_ok.1 h
    cases below
    · exact (Except.ok.inj h).symm
    · cases h

/-- What a successful check of the map settings read: a corner and sizes of three items each,
read as doubles and as positive integers, put into the entries it returns. -/
theorem check_map_ok {e e' : List (String × Value)} (h : check .map e = .ok e') :
    ∃ os ds corner sizes,
      (lookup e "origin").size = .ok 3 ∧ walk (lookup e "origin") = .ok os ∧
      os.mapM Value.toReal = .ok corner ∧
      (lookup e "dimensions").size = .ok 3 ∧ walk (lookup e "dimensions") = .ok ds ∧
      ds.mapM Value.toInteger = .ok sizes ∧ sizes.any (· ≤ 0) = false ∧
      e' = e.map (withAxes corner sizes) := by
  unfold check at h
  obtain ⟨u, -, h⟩ := bind_eq_ok.1 h
  dsimp only at h
  -- the two sizes, then the corner and the sizes read item by item, then their signs
  obtain ⟨no, hno, h⟩ := bind_eq_ok.1 h
  split at h
  · cases h
  rename_i hno3
  obtain ⟨nd, hnd, h⟩ := bind_eq_ok.1 h
  split at h
  · cases h
  rename_i hnd3
  obtain ⟨os, hos, h⟩ := bind_eq_ok.1 h
  obtain ⟨corner, hcorner, h⟩ := bind_eq_ok.1 h
  obtain ⟨ds, hds, h⟩ := bind_eq_ok.1 h
  obtain ⟨sizes, hsizes, h⟩ := bind_eq_ok.1 h
  split at h
  · cases h
  rename_i hsign
  refine ⟨os, ds, corner, sizes, ?_, hos, hcorner, ?_, hds, hsizes, by simpa using hsign, ?_⟩
  · rw [hno]
    simpa using hno3
  · rw [hnd]
    simpa using hnd3
  · exact (Except.ok.inj h).symm

/-- The check keeps the names of the entries, in order. -/
theorem check_names {kind : SettingsKind} {e e' : List (String × Value)}
    (h : check kind e = .ok e') : e'.map (·.1) = e.map (·.1) := by
  cases kind with
  | map =>
    obtain ⟨-, -, corner, sizes, -, -, -, -, -, -, -, rfl⟩ := check_map_ok h
    rw [List.map_map]
    exact List.map_congr_left fun x _ => withAxes_name corner sizes x
  | localPlanner | globalSearch | lidar => rw [check_eq_self (by decide) h]

/-- Under a name that some entry has, rewritten entries that keep their names read the rewritten
first entry of that name. -/
theorem lookup_map_of_find? {e : List (String × Value)} {f : String × Value → String × Value}
    (hname : ∀ x, (f x).1 = x.1) {name : String} {x : String × Value}
    (hx : e.find? (·.1 == name) = some x) : lookup (e.map f) name = (f x).2 := by
  have hp : ((fun y : String × Value => y.1 == name) ∘ f) = fun y => y.1 == name := by
    funext y
    simp [hname]
  unfold lookup
  rw [List.find?_map, hp, hx]
  rfl

/-- A name whose value has a size is the name of some entry. -/
theorem exists_find?_of_size {e : List (String × Value)} {name : String} {n : Nat}
    (h : (lookup e name).size = .ok n) : ∃ x, e.find? (·.1 == name) = some x := by
  unfold lookup at h
  cases hf : e.find? (·.1 == name) with
  | none => simp [hf, Value.size] at h
  | some x => exact ⟨x, rfl⟩

/-- The map settings read the corner and the sizes that their check put in. -/
theorem lookup_withAxes (corner : List Float) (sizes : List Int) {e : List (String × Value)}
    {name : String} {n : Nat} (h : (lookup e name).size = .ok n) :
    lookup (e.map (withAxes corner sizes)) name =
      if (name == "origin") = true then Value.nums corner
      else if (name == "dimensions") = true then Value.ints sizes else lookup e name := by
  obtain ⟨x, hx⟩ := exists_find?_of_size h
  have hxn : x.1 = name := by simpa using List.find?_some hx
  rw [lookup_map_of_find? (withAxes_name corner sizes) hx]
  unfold withAxes lookup
  rw [hx, hxn]
  split_ifs <;> rfl

/-- **Checking a checked group changes nothing**: the check of every group is idempotent. The
planners' and the sensor's checks return what they were given; the map's puts the corner and the
sizes in as doubles and integers, which read back as themselves and pass again. -/
theorem check_check {kind : SettingsKind} {e e' : List (String × Value)}
    (h : check kind e = .ok e') : check kind e' = .ok e' := by
  cases kind with
  | map =>
    obtain ⟨os, ds, corner, sizes, hso, hwo, hcorner, hsd, hwd, hsizes, hsign, rfl⟩ :=
      check_map_ok h
    have hpos := check_positive h
    have hlen : corner.length = 3 := (length_of_mapM_ok hcorner).trans (walk_length hwo hso)
    have hslen : sizes.length = 3 := (length_of_mapM_ok hsizes).trans (walk_length hwd hsd)
    -- the positive settings are other names than the corner and the sizes
    have hpos' : ∀ name ∈ SettingsKind.positive .map,
        Value.lessThan (.int 0) (lookup (e.map (withAxes corner sizes)) name) = .ok true := by
      intro name hname
      have hother : name ≠ "origin" ∧ name ≠ "dimensions" := by
        simp only [SettingsKind.positive, List.mem_cons, List.not_mem_nil, or_false] at hname
        rcases hname with rfl | rfl <;> decide
      rw [lookup_map_of_fixed e _ (withAxes_name corner sizes)]
      · exact hpos name hname
      · intro x hx
        simp [withAxes, hx, hother.1, hother.2]
    have horigin : lookup (e.map (withAxes corner sizes)) "origin" = Value.nums corner := by
      simpa using lookup_withAxes corner sizes hso
    have hdims : lookup (e.map (withAxes corner sizes)) "dimensions" = Value.ints sizes := by
      simpa using lookup_withAxes corner sizes hsd
    -- doubles and integers written as lists read back as themselves
    have hcorner' : (corner.map Value.num).mapM Value.toReal = .ok corner :=
      mapM_map_of_read (f := Value.num) (g := Value.toReal) (fun _ => rfl) corner
    have hsizes' : (sizes.map Value.int).mapM Value.toInteger = .ok sizes :=
      mapM_map_of_read (f := Value.int) (g := Value.toInteger) (fun _ => rfl) sizes
    have hfix : (e.map (withAxes corner sizes)).map (withAxes corner sizes) =
        e.map (withAxes corner sizes) := by
      rw [List.map_map]
      exact List.map_congr_left fun x _ => withAxes_withAxes corner sizes x
    unfold check
    rw [forIn_requirePositive_of _ _ hpos']
    simp only [horigin, hdims, Value.nums, Value.ints, Value.size, walk, List.length_map, hlen,
      hslen, hcorner', hsizes', hsign, bne_self_eq_false, bind, Except.bind,
      Bool.false_eq_true, if_false]
    exact congrArg Except.ok hfix
  | localPlanner | globalSearch | lidar =>
    have he := check_eq_self (by decide) h
    subst he
    exact h

/-! ## Reading the written object -/

/-- The first entry of a name, in entries whose names are distinct, is the entry of that
name. -/
theorem find?_of_nodup {e : List (String × Value)} (hnd : (e.map (·.1)).Nodup) {y : String × Value}
    (hy : y ∈ e) : e.find? (·.1 == y.1) = some y := by
  induction e with
  | nil => cases hy
  | cons x e ih =>
    rw [List.map_cons, List.nodup_cons] at hnd
    rw [List.find?_cons]
    rcases List.mem_cons.1 hy with rfl | hy
    · simp
    · have hxy : (x.1 == y.1) = false :=
        beq_false_of_ne fun h => hnd.1 (h ▸ List.mem_map_of_mem hy)
      rw [hxy]
      exact ih hnd.2 hy

/-- A map over a list of names that sends each item to the entry of its name, over entries with
the same names in the same order, gives the entries. -/
theorem map_pick {ds e : List (String × Value)} {f : String × Value → String × Value}
    (hnames : e.map (·.1) = ds.map (·.1))
    (hf : ∀ x ∈ ds, ∀ y ∈ e, y.1 = x.1 → f x = y) : ds.map f = e := by
  have hlen : ds.length = e.length := by
    simpa using (congrArg List.length hnames).symm
  apply List.ext_getElem (by rw [List.length_map, hlen])
  intro i hi he
  rw [List.getElem_map]
  have hi' : i < ds.length := by simpa using hi
  refine hf _ (List.getElem_mem hi') _ (List.getElem_mem he) ?_
  have := congrArg (·[i]?) hnames
  simpa [hi', he] using this

/-- The names of every group are distinct. -/
theorem defaults_names_nodup (kind : SettingsKind) : (kind.defaults.map (·.1)).Nodup := by
  cases kind <;> decide

/-- A group read from an object holds the group's names, in the group's order. -/
theorem read_names {kind : SettingsKind} {data : Value} {s : Settings}
    (h : read kind data = .ok s) :
    s.kind = kind ∧ s.entries.map (·.1) = kind.defaults.map (·.1) := by
  unfold read at h
  split at h
  · obtain ⟨e', hcheck, h⟩ := bind_eq_ok.1 h
    cases h
    refine ⟨rfl, ?_⟩
    rw [check_names hcheck, List.map_map]
    refine List.map_congr_left fun x _ => ?_
    obtain ⟨k, d⟩ := x
    simp only [Function.comp_apply]
    split <;> rfl
  · cases h

/-- **A group of settings read back from the object it is written as is the same group**: every
value as it was, with its kind of number, since reading picks each written value and the check
changes nothing the second time. -/
theorem read_toValue {kind : SettingsKind} {data : Value} {s : Settings}
    (h : read kind data = .ok s) : read kind s.toValue = .ok s := by
  obtain ⟨hkind, hnames⟩ := read_names h
  obtain ⟨entries, hcheck⟩ := read_ok h
  have hnd : (s.entries.reverse.map (·.1)).Nodup := by
    rw [List.map_reverse, List.nodup_reverse, hnames]
    exact defaults_names_nodup kind
  unfold read toValue
  dsimp only
  rw [map_pick hnames]
  · rw [check_check hcheck, ← hkind]
    rfl
  · intro x _ y hy hyx
    obtain ⟨k, d⟩ := x
    obtain ⟨k', v⟩ := y
    dsimp only at hyx
    subst hyx
    have hfind := find?_of_nodup hnd (List.mem_reverse.2 hy)
    dsimp only at hfind ⊢
    rw [hfind]

/-- Map settings given loosely: a corner of an integer, a truth value and a double, sizes of a
double, an integer and a truth value, a text where a radius is expected (the clearing radius is
not checked), and a member of no setting. -/
def looseMapData : Value :=
  .dict [("origin", .list [.int 1, .bool true, .num 0.5]),
    ("dimensions", .list [.num 2.5, .int 3, .bool true]), ("voxel_size", .int 1),
    ("clearing_radius", .str "wide"), ("unknown", .null)]

/-- The map settings read from `looseMapData`: the corner in doubles, the sizes in integers, the
rest as given or by default. -/
def looseMapRead : Settings :=
  ⟨.map, [("voxel_size", .int 1), ("traversability_radius", .num 0.3),
    ("clearing_radius", .str "wide"), ("origin", .list [.num 1.0, .num 1.0, .num 0.5]),
    ("dimensions", .list [.int 2, .int 3, .int 1])]⟩

theorem loose_map_read_back :
    read .map looseMapData = .ok looseMapRead ∧
      read .map looseMapRead.toValue = .ok looseMapRead :=
  have h : read .map looseMapData = .ok looseMapRead := by rfl
  ⟨h, read_toValue h⟩

end Settings

end Exploration
