import ParticleShader.Scalar

/-!
# Small vectors

The fixed-size vectors that nodes hold and constant rows carry, and the little
linear algebra that orients particles towards a camera. Sums of products are
taken from left to right.
-/

namespace ParticleShader

/-- A pair of values. -/
structure Vec2 (α : Type) where
  /-- The first coordinate. -/
  x : α
  /-- The second coordinate. -/
  y : α
deriving DecidableEq

/-- A vector of three coordinates. -/
structure Vec3 (α : Type) where
  /-- The first coordinate. -/
  x : α
  /-- The second coordinate. -/
  y : α
  /-- The third coordinate. -/
  z : α
deriving DecidableEq

/-- A vector of four coordinates, the size of a register. -/
structure Vec4 (α : Type) where
  /-- The first coordinate. -/
  x : α
  /-- The second coordinate. -/
  y : α
  /-- The third coordinate. -/
  z : α
  /-- The fourth coordinate. -/
  w : α
deriving DecidableEq

namespace Vec2

/-- The coordinates in order. -/
def toList {α : Type} (v : Vec2 α) : List α := [v.x, v.y]

end Vec2

namespace Vec3

variable {α : Type}

/-- The coordinates in order. -/
def toList (v : Vec3 α) : List α := [v.x, v.y, v.z]

/-- The vector of a function of each coordinate. -/
def map (f : α → α) (v : Vec3 α) : Vec3 α := ⟨f v.x, f v.y, f v.z⟩

/-- The vector of a function of each pair of coordinates. -/
def zipWith (f : α → α → α) (u v : Vec3 α) : Vec3 α := ⟨f u.x v.x, f u.y v.y, f u.z v.z⟩

/-- The vector with a fourth coordinate. -/
def extend (v : Vec3 α) (w : α) : Vec4 α := ⟨v.x, v.y, v.z, w⟩

variable [Scalar α]

instance : Add (Vec3 α) := ⟨zipWith (· + ·)⟩

/-- The vector with every coordinate multiplied by `k`. -/
def scale (v : Vec3 α) (k : α) : Vec3 α := v.map (· * k)

/-- The null vector. -/
def zero : Vec3 α := ⟨Scalar.zero, Scalar.zero, Scalar.zero⟩

/-- The unit vector of the second axis. -/
def unitY : Vec3 α := ⟨Scalar.zero, Scalar.one, Scalar.zero⟩

/-- The unit vector of the third axis. -/
def unitZ : Vec3 α := ⟨Scalar.zero, Scalar.zero, Scalar.one⟩

/-- The scalar product. -/
def dot (u v : Vec3 α) : α := u.x * v.x + u.y * v.y + u.z * v.z

/-- The vector product. -/
def cross (u v : Vec3 α) : Vec3 α :=
  ⟨u.y * v.z - v.y * u.z, u.z * v.x - v.z * u.x, u.x * v.y - v.x * u.y⟩

/-- The vector of length `1` in the same direction, when the inverse of the
length is a positive finite value. -/
def normalize? (v : Vec3 α) : Option (Vec3 α) :=
  let r := Scalar.one / Scalar.sqrt (v.dot v)
  if Scalar.isFinite r ∧ Scalar.zero < r then some (v.scale r) else none

end Vec3

namespace Vec4

variable {α : Type}

/-- The coordinates in order. -/
def toList (v : Vec4 α) : List α := [v.x, v.y, v.z, v.w]

/-- The vector of a function of each coordinate. -/
def map (f : α → α) (v : Vec4 α) : Vec4 α := ⟨f v.x, f v.y, f v.z, f v.w⟩

/-- The vector of a function of each pair of coordinates. -/
def zipWith (f : α → α → α) (u v : Vec4 α) : Vec4 α :=
  ⟨f u.x v.x, f u.y v.y, f u.z v.z, f u.w v.w⟩

/-- The first three coordinates. -/
def xyz (v : Vec4 α) : Vec3 α := ⟨v.x, v.y, v.z⟩

/-- The vector with one value in every coordinate. -/
def splat (a : α) : Vec4 α := ⟨a, a, a, a⟩

variable [Scalar α]

instance : Add (Vec4 α) := ⟨zipWith (· + ·)⟩

instance : Sub (Vec4 α) := ⟨zipWith (· - ·)⟩

/-- The vector with every coordinate divided by `k`. -/
def divBy (v : Vec4 α) (k : α) : Vec4 α := v.map (· / k)

/-- The null vector. -/
def zero : Vec4 α := splat Scalar.zero

/-- The vector with `1` in every coordinate. -/
def one : Vec4 α := splat Scalar.one

end Vec4

/-- A matrix of three columns of three coordinates. -/
structure Mat3 (α : Type) where
  /-- The image of the first unit vector. -/
  first : Vec3 α
  /-- The image of the second unit vector. -/
  second : Vec3 α
  /-- The image of the third unit vector. -/
  third : Vec3 α
deriving DecidableEq

namespace Mat3

variable {α : Type}

/-- The three rows, from the top. -/
def rows (m : Mat3 α) : List (Vec3 α) :=
  [⟨m.first.x, m.second.x, m.third.x⟩,
   ⟨m.first.y, m.second.y, m.third.y⟩,
   ⟨m.first.z, m.second.z, m.third.z⟩]

/-- The matrix whose columns are the rows of `m`. -/
def transpose (m : Mat3 α) : Mat3 α :=
  ⟨⟨m.first.x, m.second.x, m.third.x⟩,
   ⟨m.first.y, m.second.y, m.third.y⟩,
   ⟨m.first.z, m.second.z, m.third.z⟩⟩

variable [Scalar α]

/-- The identity matrix. -/
def identity : Mat3 α :=
  ⟨⟨Scalar.one, Scalar.zero, Scalar.zero⟩, Vec3.unitY, Vec3.unitZ⟩

/-- The image of a vector: its coordinates times the columns, summed. -/
def apply (m : Mat3 α) (v : Vec3 α) : Vec3 α :=
  m.first.scale v.x + m.second.scale v.y + m.third.scale v.z

end Mat3

end ParticleShader
