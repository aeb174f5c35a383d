import LiveRelay.Room.Participant

/-! # Handles for connections -/

namespace LiveRelay

structure HandleSource where
  next : Handle
deriving DecidableEq, Repr

namespace HandleSource

def start : HandleSource := ⟨0⟩

def take (s : HandleSource) : Handle × HandleSource := (s.next, ⟨s.next + 1⟩)

/-- The next so many handles, in order. -/
def takeMany (s : HandleSource) : Nat → List Handle
  | 0 => []
  | n + 1 => s.take.1 :: s.take.2.takeMany n

theorem length_takeMany (s : HandleSource) (n : Nat) : (s.takeMany n).length = n := by
  induction n generalizing s with
  | zero => rfl
  | succ n ih => simp [takeMany, ih]

/-- Handles count up from the first one. -/
theorem getElem?_takeMany (s : HandleSource) {n i : Nat} (below : i < n) :
    (s.takeMany n)[i]? = some (s.next + UInt64.ofNat i) := by
  induction n generalizing s i with
  | zero => omega
  | succ n ih =>
    cases i with
    | zero => simp [takeMany, take]
    | succ i =>
      rw [takeMany, List.getElem?_cons_succ, ih s.take.2 (by omega)]
      simp only [take, UInt64.ofNat_add, UInt64.add_assoc, UInt64.add_comm 1]
      rfl

end HandleSource

end LiveRelay
