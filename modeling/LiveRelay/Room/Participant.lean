import LiveRelay.Json.Value

/-! # Participants

What a room remembers of everyone in it: the code that they play, the state of their editor, and the
place of their speaker on the shared field.
-/

namespace LiveRelay

/-- The number of a participant. Numbers are given once. -/
abbrev ParticipantId := UInt64

abbrev Handle := UInt64

structure Speaker where
  x : Binary64
  y : Binary64
  angle : Binary64
deriving DecidableEq, Repr

structure Participant where
  id : ParticipantId
  code : String
  editor : Option Json.Value
  speaker : Speaker
deriving Repr

namespace Speaker

def origin : Speaker := ⟨.zero, .zero, .zero⟩

end Speaker

namespace Participant

/-- A participant who has not said anything yet. -/
def fresh (id : ParticipantId) : Participant := ⟨id, "0", none, .origin⟩

/-- Puts a participant into a list that ascends by number. -/
def insertById (p : Participant) : List Participant → List Participant
  | [] => [p]
  | q :: rest => if p.id ≤ q.id then p :: q :: rest else q :: insertById p rest

def sortById (ps : List Participant) : List Participant := ps.foldr insertById []

theorem insertById_perm (p : Participant) (ps : List Participant) :
    (insertById p ps).Perm (p :: ps) := by
  induction ps with
  | nil => exact .refl _
  | cons q rest ih =>
    unfold insertById
    split
    · exact .refl _
    · exact (ih.cons q).trans (.swap p q rest)

/-- Sorting neither loses nor invents a participant. -/
theorem sortById_perm (ps : List Participant) : (sortById ps).Perm ps := by
  induction ps with
  | nil => exact .refl _
  | cons p rest ih => exact (insertById_perm p (sortById rest)).trans (ih.cons p)

theorem insertById_ascends (p : Participant) {ps : List Participant}
    (ascending : ps.Pairwise (·.id ≤ ·.id)) : (insertById p ps).Pairwise (·.id ≤ ·.id) := by
  induction ascending with
  | nil => simp [insertById]
  | @cons q rest least ascending ih =>
    unfold insertById
    split
    · next below =>
      refine .cons ?_ (.cons least ascending)
      intro r member
      rcases List.mem_cons.mp member with rfl | member
      · exact below
      · exact UInt64.le_trans below (least r member)
    · next above =>
      refine .cons ?_ ih
      intro r member
      rcases List.mem_cons.mp ((insertById_perm p rest).mem_iff.mp member) with rfl | member
      · exact (UInt64.le_total r.id q.id).resolve_left above
      · exact least r member

theorem sortById_ascends (ps : List Participant) : (sortById ps).Pairwise (·.id ≤ ·.id) := by
  induction ps with
  | nil => exact .nil
  | cons p rest ih => exact insertById_ascends p ih

end Participant

/-- A change of one field of a participant. -/
inductive Change where
  | code (s : String)
  | editor (v : Json.Value)
  | speaker (s : Speaker)
deriving Repr

namespace Participant

def apply (p : Participant) : Change → Participant
  | .code s => { p with code := s }
  | .editor v => { p with editor := some v }
  | .speaker s => { p with speaker := s }

/-- A change as it is told to others: code and speaker are read back from the participant, the
editor is told as it came. -/
def told (p : Participant) : Change → Change
  | .code _ => .code p.code
  | .editor v => .editor v
  | .speaker _ => .speaker p.speaker

theorem told_apply (p : Participant) (c : Change) : (p.apply c).told c = c := by
  cases c <;> rfl

end Participant

end LiveRelay
