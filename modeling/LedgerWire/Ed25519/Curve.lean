import LedgerWire.Bytes

/-!
The twisted Edwards curve `-x² + y² = 1 + d x² y²` over the integers modulo `2²⁵⁵ - 19`, with points
in extended coordinates: a point `(x, y)` is any `(X, Y, Z, T)` with `x = X/Z`, `y = Y/Z` and
`x y = T/Z`. The addition law below holds for all pairs of points, equal ones included.
-/

namespace LedgerWire.Ed25519

def prime : Nat := Nat.pow 2 255 - 19

instance : @NeZero Nat Zero.ofOfNat0 prime := ⟨by decide⟩

abbrev Field := Fin prime

namespace Field

def power (base : Field) (exponent : Nat) : Field :=
  if exponent = 0 then 1
  else
    let squared := power (base * base) (exponent / 2)
    if exponent % 2 = 1 then base * squared else squared
termination_by exponent

def inverse (value : Field) : Field := power value (prime - 2)

def rootOfMinusOne : Field := power 2 ((prime - 1) / 4)

def rootOfQuotient? (numerator denominator : Field) : Option Field :=
  let cube := denominator * denominator * denominator
  let seventh := cube * cube * denominator
  let root := numerator * cube * power (numerator * seventh) ((prime - 5) / 8)
  let check := denominator * root * root
  if check = numerator then some root
  else if check = -numerator then some (root * rootOfMinusOne)
  else none

end Field

def curveConstant : Field := -121665 * Field.inverse 121666

structure Point where
  x : Field
  y : Field
  z : Field
  t : Field

namespace Point

def ofAffine (x y : Field) : Point := ⟨x, y, 1, x * y⟩

def identity : Point := ofAffine 0 1

def base : Point :=
  ofAffine
    15112221349535400772501151409588531511454012693041857206046113283949847762202
    46316835694926478169428394003475163141307993866256225615783033603165251855960

def doubledConstant : Field := 2 * curveConstant

def add (left right : Point) : Point :=
  let a := (left.y - left.x) * (right.y - right.x)
  let b := (left.y + left.x) * (right.y + right.x)
  let c := left.t * doubledConstant * right.t
  let d := 2 * left.z * right.z
  ⟨(b - a) * (d - c), (d + c) * (b + a), (d - c) * (d + c), (b - a) * (b + a)⟩

def neg (point : Point) : Point := ⟨-point.x, point.y, point.z, -point.t⟩

def multiply (scalar : Nat) (point : Point) : Point :=
  if scalar = 0 then identity
  else
    let doubled := multiply (scalar / 2) (point.add point)
    if scalar % 2 = 1 then point.add doubled else doubled
termination_by scalar

def isIdentity (point : Point) : Bool := point.x == 0 && point.y == point.z

/-- The order divides the cofactor. -/
def hasSmallOrder (point : Point) : Bool := (multiply 8 point).isIdentity

def encode (point : Point) : Bytes :=
  let scale := Field.inverse point.z
  let x := point.x * scale
  let y := point.y * scale
  LittleEndian.encode 32 (y.val + x.val % 2 * Nat.pow 2 255)

/-- A `y` beyond the modulus is reduced, and either parity is read for the root zero. -/
def decode? (bytes : Bytes) : Option Point :=
  let value := LittleEndian.decode bytes
  let y := Fin.ofNat prime (value % Nat.pow 2 255)
  let square := y * y
  match Field.rootOfQuotient? (square - 1) (curveConstant * square + 1) with
  | some root =>
      let x := if root.val % 2 = value / Nat.pow 2 255 % 2 then root else -root
      some (ofAffine x y)
  | none => none

end Point

end LedgerWire.Ed25519
