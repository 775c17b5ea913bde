/-!
# Values that take time
-/

namespace DialectBridge

/-- A value that is there after some milliseconds. -/
structure Timed (α : Type) where
  delay : Nat
  value : α

/-- A value made of the one that is awaited. -/
def Timed.map {α β : Type} (f : α → β) (t : Timed α) : Timed β :=
  ⟨t.delay, f t.value⟩

end DialectBridge
