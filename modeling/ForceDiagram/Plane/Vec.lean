/-
ForceDiagram/Plane/Vec.lean

Points and displacements in the plane, component by component.
-/
import ForceDiagram.Scalar.Basic

namespace ForceDiagram

variable {F : Type} [Scalar F]

structure Vec (F : Type) where
  x : F
  y : F
deriving BEq, Repr

namespace Vec

def zero : Vec F := ⟨0, 0⟩

instance : Inhabited (Vec F) := ⟨zero⟩

instance : Add (Vec F) := ⟨fun a b => ⟨a.x + b.x, a.y + b.y⟩⟩

instance : Sub (Vec F) := ⟨fun a b => ⟨a.x - b.x, a.y - b.y⟩⟩

/-- A vector stretched by a factor. -/
instance : HMul (Vec F) F (Vec F) := ⟨fun a s => ⟨a.x * s, a.y * s⟩⟩

/-- A vector shrunk by a divisor. -/
instance : HDiv (Vec F) F (Vec F) := ⟨fun a s => ⟨a.x / s, a.y / s⟩⟩

@[simp] theorem add_x (a b : Vec F) : (a + b).x = a.x + b.x := rfl

@[simp] theorem add_y (a b : Vec F) : (a + b).y = a.y + b.y := rfl

@[simp] theorem sub_x (a b : Vec F) : (a - b).x = a.x - b.x := rfl

@[simp] theorem sub_y (a b : Vec F) : (a - b).y = a.y - b.y := rfl

@[simp] theorem mul_x (a : Vec F) (s : F) : (a * s).x = a.x * s := rfl

@[simp] theorem mul_y (a : Vec F) (s : F) : (a * s).y = a.y * s := rfl

@[simp] theorem div_x (a : Vec F) (s : F) : (a / s).x = a.x / s := rfl

@[simp] theorem div_y (a : Vec F) (s : F) : (a / s).y = a.y / s := rfl

/-- The square of the length, without a root. -/
def lengthSq (a : Vec F) : F := a.x * a.x + a.y * a.y

def length (a : Vec F) : F := Scalar.hypot a.x a.y

/-- The component-wise lesser of two points. -/
def lesser (a b : Vec F) : Vec F := ⟨Scalar.lesser a.x b.x, Scalar.lesser a.y b.y⟩

/-- The component-wise greater of two points. -/
def greater (a b : Vec F) : Vec F := ⟨Scalar.greater a.x b.x, Scalar.greater a.y b.y⟩

/-- Whether both components are finite. -/
def isFinite (a : Vec F) : Bool := Scalar.isFinite a.x && Scalar.isFinite a.y

end Vec

end ForceDiagram
