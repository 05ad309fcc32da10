import LiveSettings.Binary.Decimal

/-!
# Points, sizes and rectangles

Coordinates are single precision numbers and may be infinite or no number at all.

Results: `Rect.ofParts_origin_size` (a rectangle is its origin and its size).
-/

namespace LiveSettings

structure Point where
  x : Binary32
  y : Binary32
  deriving DecidableEq, Repr

structure Size where
  width : Binary32
  height : Binary32
  deriving DecidableEq, Repr

structure Rect where
  x : Binary32
  y : Binary32
  width : Binary32
  height : Binary32
  deriving DecidableEq, Repr

namespace Point

instance : Inhabited Point := ⟨⟨.zero _, .zero _⟩⟩

def equal (p q : Point) : Bool := p.x.equal q.x && p.y.equal q.y

/-- Equal coordinate by coordinate, where a coordinate that is no number equals itself. -/
def same (p q : Point) : Bool := p.x.same q.x && p.y.same q.y

def display (p : Point) : String := "(" ++ p.x.display ++ ", " ++ p.y.display ++ ")"

end Point

namespace Size

instance : Inhabited Size := ⟨⟨.zero _, .zero _⟩⟩

def equal (s t : Size) : Bool := s.width.equal t.width && s.height.equal t.height

/-- Equal side by side, where a side that is no number equals itself. -/
def same (s t : Size) : Bool := s.width.same t.width && s.height.same t.height

def display (s : Size) : String := s.width.display ++ "x" ++ s.height.display

end Size

namespace Rect

instance : Inhabited Rect := ⟨⟨.zero _, .zero _, .zero _, .zero _⟩⟩

def ofParts (origin : Point) (size : Size) : Rect := ⟨origin.x, origin.y, size.width, size.height⟩

def origin (r : Rect) : Point := ⟨r.x, r.y⟩

def size (r : Rect) : Size := ⟨r.width, r.height⟩

@[simp]
theorem origin_ofParts (p : Point) (s : Size) : (ofParts p s).origin = p := rfl

@[simp]
theorem size_ofParts (p : Point) (s : Size) : (ofParts p s).size = s := rfl

theorem ofParts_origin_size (r : Rect) : ofParts r.origin r.size = r := rfl

def equal (r q : Rect) : Bool := r.origin.equal q.origin && r.size.equal q.size

/-- The same origin and the same size. -/
def same (r q : Rect) : Bool := r.origin.same q.origin && r.size.same q.size

def display (r : Rect) : String :=
  "(" ++ r.x.display ++ ", " ++ r.y.display ++ ", " ++ r.size.display ++ ")"

end Rect

end LiveSettings
