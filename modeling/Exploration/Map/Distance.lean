import Exploration.Map.Cell

/-!
# Distance to the nearest obstacle

For every cell of a grid with at least one occupied cell, `GridFrame.obstacleDistance` gives the
length from the cell's centre to the centre of an occupied cell nearest to it. It is the exact
separable method: the nearest obstacle of each cell is found first along the first axis, then
among the nearest obstacles of its row along the second axis, then along the third. Along one
line the candidates form a lower envelope of parabolas; a candidate is dropped from the envelope
when the two beside it hide it (`hidden`), and each cell of the line then takes the envelope
member that is not farther than the next one (`choose`).

Which of two equally near obstacles a cell takes is decided by these steps, and the length is
computed from the chosen obstacle's offset in cells: each offset is scaled by the edge, squared,
and the squares are summed in axis order before the square root. Both choices are part of the
result, down to the last bit.
-/

namespace Exploration

/-- An obstacle cell found as nearest, by its three indices. -/
abbrev Site := Int × Int × Int

namespace Site

/-- The index on an axis. -/
def get (p : Site) : Nat → Int
  | 0 => p.1
  | 1 => p.2.1
  | _ => p.2.2

end Site

namespace NearestObstacle

/-- The square of an offset of `n` cells of edge `s`. -/
def sq (s : Float) (n : Int) : Float :=
  let t := Float.ofInt n * s
  t * t

/-- The squared length from a site to the cell at `pos` of the line along `axis` through
`line`, the three squares summed in axis order. -/
def reach (s : Float) (axis : Nat) (line : Site) (pos : Int) (p : Site) : Float :=
  let t := fun (a : Nat) => if a == axis then sq s (p.get a - pos) else sq s (p.get a - line.get a)
  (t 0 + t 1) + t 2

/-- The squared length from a site to the line along `axis` through `line`. -/
def across (s : Float) (axis : Nat) (line : Site) (p : Site) : Float :=
  match axis with
  | 0 => sq s (p.get 1 - line.get 1) + sq s (p.get 2 - line.get 2)
  | 1 => sq s (p.get 0 - line.get 0) + sq s (p.get 2 - line.get 2)
  | _ => sq s (p.get 0 - line.get 0) + sq s (p.get 1 - line.get 1)

/-- Whether the site `v`, between `u` and `w` along the line, is nearer than both at no cell of
the line, so that it leaves the envelope. -/
def hidden (s : Float) (axis : Nat) (line : Site) (u v w : Site) : Bool :=
  let f1 := Float.ofInt (v.get axis)
  let a := (f1 - Float.ofInt (u.get axis)) * s
  let b := (Float.ofInt (w.get axis) - f1) * s
  let c := a + b
  let uR := across s axis line u
  let vR := across s axis line v
  let wR := across s axis line w
  !(c * vR - b * uR - a * wR - a * b * c ≤ 0.0)

/-- Adds a site to the envelope (held last site first), dropping the sites it hides. -/
def push (s : Float) (axis : Nat) (line : Site) (w : Site) : List Site → List Site
  | v :: u :: rest =>
    if hidden s axis line u v w then push s axis line w (u :: rest) else w :: v :: u :: rest
  | stack => w :: stack

/-- The envelope member for the cell at `pos`: the current member, or a later one while the next
is strictly nearer. Returns the member and the members after it. -/
def choose (s : Float) (axis : Nat) (line : Site) (pos : Int) (cur : Site) :
    List Site → Site × List Site
  | [] => (cur, [])
  | next :: rest =>
    if reach s axis line pos cur ≤ reach s axis line pos next then (cur, next :: rest)
    else choose s axis line pos next rest

/-- The nearest sites for the `len` cells of a line, given the sites found so far on it in line
order; none when the line has no site. -/
def line (s : Float) (axis : Nat) (here : Site) (len : Nat) (sites : List Site) :
    Option (List Site) :=
  match (sites.foldl (fun st w => push s axis here w st) []).reverse with
  | [] => none
  | first :: rest =>
    let step := fun (acc : List Site × Site × List Site) (pos : Nat) =>
      let (out, cur, later) := acc
      let (c, l) := choose s axis here pos cur later
      (c :: out, c, l)
    some ((List.range len).foldl step ([], first, rest)).1.reverse

end NearestObstacle

namespace GridFrame

open NearestObstacle

/-- The three indices of the cell at a flat position. -/
def unflat (g : GridFrame) (n : Nat) : Site :=
  ((n / (g.ny * g.nz) : Nat), ((n / g.nz) % g.ny : Nat), (n % g.nz : Nat))

/-- The nearest site recorded for a flat position, if any. -/
def siteAt (feats : Array Int) (n : Nat) : Option Site :=
  let a := feats.getD (3 * n) (-1)
  if a < 0 then none else some (a, feats.getD (3 * n + 1) 0, feats.getD (3 * n + 2) 0)

/-- Records the nearest site of a flat position. -/
def record (feats : Array Int) (n : Nat) (p : Site) : Array Int :=
  ((feats.set! (3 * n) p.1).set! (3 * n + 1) p.2.1).set! (3 * n + 2) p.2.2

/-- The first cell and the step between cells of the lines along an axis, for the `m`-th line. -/
def lineStart (g : GridFrame) (axis : Nat) (m : Nat) : Nat × Nat :=
  match axis with
  | 0 => (m, g.ny * g.nz)
  | 1 => ((m / g.nz) * (g.ny * g.nz) + m % g.nz, g.nz)
  | _ => (m * g.nz, 1)

/-- One pass along an axis: every cell takes the nearest of the sites recorded on its line. -/
def sweep (g : GridFrame) (axis : Nat) (feats : Array Int) : Array Int := Id.run do
  let len := g.extent axis
  let lines := if len = 0 then 0 else g.count / len
  let mut out := feats
  for m in [0:lines] do
    let (base, stride) := g.lineStart axis m
    let sites := (List.range len).filterMap fun t => siteAt feats (base + t * stride)
    match line g.size axis (g.unflat base) len sites with
    | none => pure ()
    | some chosen =>
      for (p, t) in chosen.zipIdx do
        out := record out (base + t * stride) p
  return out

/-- The nearest occupied cell of every cell, as three entries per flat position. -/
def nearestObstacles (g : GridFrame) (occupied : Nat → Bool) : Array Int :=
  let start := (Array.range g.count).foldl (fun acc n =>
    if occupied n then let (i, j, k) := g.unflat n; acc.push i |>.push j |>.push k
    else acc.push (-1) |>.push 0 |>.push 0) (Array.mkEmpty (3 * g.count))
  g.sweep 2 (g.sweep 1 (g.sweep 0 start))

/-- The length from each cell to its nearest occupied cell; every length is infinite when no
cell is occupied. -/
def obstacleDistance (g : GridFrame) (occupied : Nat → Bool) : FloatArray :=
  let inf := (1.0 : Float) / 0.0
  if !(List.range g.count).any occupied then ⟨Array.replicate g.count inf⟩
  else
    let feats := g.nearestObstacles occupied
    ⟨(Array.range g.count).map fun n =>
      let (i, j, k) := g.unflat n
      match siteAt feats n with
      | some (a, b, c) => ((sq g.size (a - i) + sq g.size (b - j)) + sq g.size (c - k)).sqrt
      | none => inf⟩

end GridFrame

end Exploration
