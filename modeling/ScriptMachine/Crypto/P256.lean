import ScriptMachine.Bytes.Basic

/-! # The curve P-256

Points of `y^2 = x^3 - 3x + b` over the field of `P256.p` elements, in Jacobian coordinates: `(x, y, z)`
stands for `(x / z^2, y / z^3)`, and `z = 0` for the point at infinity.

* `P256.double`, `P256.add`, `P256.scale`: the group.
* `P256.affine?`: the plain coordinates of a finite point.
* `P256.decode?`, `P256.encode`: the byte forms of points.
-/

namespace ScriptMachine

namespace P256

/-- The size of the field. -/
def p : Nat := 0xffffffff00000001000000000000000000000000ffffffffffffffffffffffff

/-- The number of points. -/
def n : Nat := 0xffffffff00000000ffffffffffffffffbce6faada7179e84f3b9cac2fc632551

/-- The constant of the curve equation. -/
def b : Nat := 0x5ac635d8aa3a93e7b3ebbd55769886bc651d06b0cc53b0f63bce3c3e27d2604b

/-- The first coordinate of the base point. -/
def gx : Nat := 0x6b17d1f2e12c4247f8bce6e563a440f277037d812deb33a0f4a13945d898c296

/-- The second coordinate of the base point. -/
def gy : Nat := 0x4fe342e2fe1a7f9b8ee7eb4a7c0f9e162bce33576b315ececbb6406837bf51f5

/-! ### Modular arithmetic -/

/-- The difference modulo `m` of two numbers below `m`. -/
def subMod (m x y : Nat) : Nat := (x + m - y) % m

/-- The power modulo `m`, by squaring, for exponents of at most `bits` bits. -/
def powMod (m : Nat) : (bits : Nat) → Nat → Nat → Nat
  | 0, _, _ => 1 % m
  | bits + 1, x, e =>
    let r := powMod m bits (x * x % m) (e / 2)
    if e % 2 == 1 then r * x % m else r

/-- The inverse modulo a prime of 256 bits. -/
def invMod (m x : Nat) : Nat := powMod m 256 x (m - 2)

/-! ### The group -/

/-- A point in Jacobian coordinates. -/
structure Point where
  /-- The scaled first coordinate. -/
  x : Nat
  /-- The scaled second coordinate. -/
  y : Nat
  /-- The scale; zero at infinity. -/
  z : Nat
  deriving DecidableEq, Repr

/-- The point at infinity. -/
def infinity : Point := ⟨1, 1, 0⟩

/-- The base point. -/
def generator : Point := ⟨gx, gy, 1⟩

/-- Twice a point. -/
def double (q : Point) : Point :=
  if q.z == 0 || q.y == 0 then infinity
  else
    let delta := q.z * q.z % p
    let gamma := q.y * q.y % p
    let beta := q.x * gamma % p
    let alpha := 3 * (subMod p q.x delta * (q.x + delta)) % p
    let x := subMod p (alpha * alpha % p) (8 * beta % p)
    let sum := q.y + q.z
    let z := subMod p (subMod p (sum * sum % p) gamma) delta
    let y := subMod p (alpha * subMod p (4 * beta % p) x % p) (8 * (gamma * gamma) % p)
    ⟨x, y, z⟩

/-- The sum of two points. -/
def add (q r : Point) : Point :=
  if q.z == 0 then r
  else if r.z == 0 then q
  else
    let qz2 := q.z * q.z % p
    let rz2 := r.z * r.z % p
    let u1 := q.x * rz2 % p
    let u2 := r.x * qz2 % p
    let s1 := q.y * (r.z * rz2 % p) % p
    let s2 := r.y * (q.z * qz2 % p) % p
    if u1 == u2 then
      if s1 == s2 then double q else infinity
    else
      let h := subMod p u2 u1
      let k := subMod p s2 s1
      let h2 := h * h % p
      let h3 := h * h2 % p
      let v := u1 * h2 % p
      let x := subMod p (subMod p (k * k % p) h3) (2 * v % p)
      let y := subMod p (k * subMod p v x % p) (s1 * h3 % p)
      ⟨x, y, h * (q.z * r.z % p) % p⟩

/-- The multiple of a point by the low `bits` bits of a number. -/
def scale : (bits : Nat) → Nat → Point → Point
  | 0, _, _ => infinity
  | bits + 1, k, q =>
    let rest := scale bits (k / 2) (double q)
    if k % 2 == 1 then add rest q else rest

/-- The plain coordinates of a finite point. -/
def affine? (q : Point) : Option (Nat × Nat) :=
  if q.z == 0 then none
  else
    let i := invMod p q.z
    let i2 := i * i % p
    some (q.x * i2 % p, q.y * (i2 * i % p) % p)

/-! ### Byte forms -/

/-- A number of 32 bytes, most significant first. -/
def toBytes32 (v : Nat) : Bytes := (Bytes.ofNatLE 32 v).reverse

/-- The number of some bytes, most significant first. -/
def ofBytes (v : Bytes) : Nat := v.foldl (fun n byte => 256 * n + byte.toNat) 0

/-- The right-hand side of the curve equation. -/
def cubic (x : Nat) : Nat := (x * x % p * x + (p - 3) * x + b) % p

/-- A second coordinate for the given first one, if there is a point with it. -/
def root? (x : Nat) : Option Nat :=
  let c := cubic x
  let y := powMod p 256 c ((p + 1) / 4)
  if y * y % p == c then some y else none

/-- The point with the given first coordinate and a chosen second one. -/
def liftX? (x : Nat) (choose : Nat → Bool) : Option Point :=
  if x < p then
    match root? x with
    | some y => some (if choose y then ⟨x, y, 1⟩ else ⟨x, (p - y) % p, 1⟩)
    | none => none
  else none

/-- Reads the byte form of a point: `02` or `03` with `x`, `04` with `x` and `y`, or `05` with `x` for
the smaller of the two second coordinates. -/
def decode? (key : Bytes) : Option Point :=
  let x := ofBytes (key.extract 1 33)
  match key.size, key.getD 0 0 with
  | 33, 0x02 => liftX? x (· % 2 == 0)
  | 33, 0x03 => liftX? x (· % 2 == 1)
  | 33, 0x05 => liftX? x fun y => y ≤ p - y
  | 65, 0x04 =>
    let y := ofBytes (key.extract 33 65)
    if x < p && y < p && y * y % p == cubic x then some ⟨x, y, 1⟩ else none
  | _, _ => none

/-- The byte form of a finite point with the given coordinates. -/
def encode (compressed : Bool) (x y : Nat) : Bytes :=
  if compressed then #[if y % 2 == 0 then 0x02 else 0x03] ++ toBytes32 x
  else #[0x04] ++ toBytes32 x ++ toBytes32 y

end P256

end ScriptMachine
