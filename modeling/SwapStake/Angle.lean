/-!
# The angle of a point

`Angle.ofPoint y x` is the angle of the point `(x, y)` from the positive first axis, in units of
which `Angle.halfTurn` make a half turn. The magnitudes of the coordinates are scaled to 62 bits and
the point is turned onto the first axis by thirty rotations whose tangents are `1, 1/2, 1/4, …`, so
that each is a shift and an addition; the sum of the rotations is the angle. The sum is kept in
units of `2 ^ 30` to the half turn, clamped to the quarter turn, folded into the quadrant of the
point, and rounded once at the end, a half towards the larger angle.
-/

namespace SwapStake.Angle

/-- The half turn in the units of the result. -/
def halfTurn : Int := 16384

/-- The half turn in the units of the rotations. -/
def fineHalfTurn : Int := 1073741824

/-- The number of bits that the larger coordinate is scaled to. -/
def scaledBits : Nat := 62

/-- The angles whose tangents are `1, 1/2, 1/4, …`, rounded to fine units. -/
def rotations : List Int :=
  [268435456, 158466703, 83729454, 42502378, 21333666, 10677233, 5339919, 2670123, 1335082, 667543,
    333772, 166886, 83443, 41722, 20861, 10430, 5215, 2608, 1304, 652, 326, 163, 81, 41, 20, 10, 5, 3, 1, 1]

def bitLength (n : Nat) : Nat :=
  if n = 0 then 0 else n.log2 + 1

/-- Scale two magnitudes by one power of two so that the larger has `scaledBits` bits. -/
def normalize (x y : Nat) : Nat × Nat :=
  let bits := bitLength (max x y)
  if scaledBits < bits then
    (x >>> (bits - scaledBits), y >>> (bits - scaledBits))
  else
    (x <<< (scaledBits - bits), y <<< (scaledBits - bits))

/-- A point on its way to the first axis, and by how much it has been turned. -/
structure Turning where
  x : Int
  y : Int
  turned : Int
deriving DecidableEq, Repr

/-- Turn by the angle `a`, whose tangent is `2 ^ (-i)`, towards the first axis. -/
def Turning.step (t : Turning) (a : Int) (i : Nat) : Turning :=
  if 0 ≤ t.y then
    ⟨t.x + t.y >>> i, t.y - t.x >>> i, t.turned + a⟩
  else
    ⟨t.x - t.y >>> i, t.y + t.x >>> i, t.turned - a⟩

/-- All thirty turns of a point of the first quadrant. -/
def turnings (x y : Nat) : Turning :=
  rotations.zipIdx.foldl (fun t r => t.step r.1 r.2) ⟨x, y, 0⟩

/-- The fine angle of a point of the first quadrant, clamped to the quarter turn. -/
def fineAngle (x y : Nat) : Int :=
  let (x, y) := normalize x y
  max 0 (min (turnings x y).turned (fineHalfTurn / 2))

/-- The fine angle in the quadrant that the signs of the coordinates say. -/
def fold (y x : Int) (fine : Int) : Int :=
  let half := if x < 0 then fineHalfTurn - fine else fine
  if y < 0 then -half else half

/-- From fine units to units of the result. -/
def round (fine : Int) : Int :=
  (fine + 32768) >>> (16 : Nat)

/-- The angle of the point `(x, y)`. On the axes it is exact; the origin has the angle zero. -/
def ofPoint (y x : Int) : Int :=
  if y = 0 then
    if 0 ≤ x then 0 else halfTurn
  else if x = 0 then
    if 0 < y then halfTurn / 2 else -(halfTurn / 2)
  else
    round (fold y x (fineAngle x.natAbs y.natAbs))

end SwapStake.Angle
