import LiveRelay.Proofs.Json.Tree

/-! # Every way to write a value

A `Phrase` is a value as it is spelled: with any escapes in its strings, any marks and signs in its
numbers, and members in any order, of equal keys too. Blanks may stand between any two tokens, so a
phrase has many texts, and `Spells` says which. Not every phrase is a value that can be kept: a
surrogate may lack its other half, a number may be too large, and brackets may nest too deep.
-/

namespace LiveRelay.Json

/-- A value as it is spelled. -/
inductive Phrase where
  | null
  | boolean (b : Bool)
  | number (n : Numeral)
  | string (g : Spelling)
  | list (items : List Phrase)
  | object (members : List (Spelling × Phrase))

/-- The key and the value of a member, if both can be kept. -/
def member? {α : Type} (value? : Phrase → Option α) (m : Spelling × Phrase) :
    Option (String × α) := do
  return (← m.1.decode, ← value? m.2)

namespace Phrase

/-- The value of a phrase, if it can be kept and opens no more than so many brackets inside each
other. -/
def value? : Nat → Phrase → Option Value
  | _, .null => some .null
  | _, .boolean b => some (.boolean b)
  | _, .number n => n.literal.value.toOption.map .number
  | _, .string g => g.decode.map .string
  | 0, .list _ | 0, .object _ => none
  | d + 1, .list items => (items.mapM (value? d)).map .list
  | d + 1, .object members => (members.mapM (member? (value? d))).map .object

/-- The string of a phrase. -/
def string? : Phrase → Option String
  | .string g => g.decode
  | _ => none

/-- What holds of a list or an object as soon as it holds of its parts holds of every phrase. -/
theorem induct {motive : Phrase → Prop} (null : motive .null)
    (boolean : ∀ b, motive (.boolean b)) (number : ∀ n, motive (.number n))
    (string : ∀ g, motive (.string g))
    (list : ∀ items, (∀ p ∈ items, motive p) → motive (.list items))
    (object : ∀ members, (∀ m ∈ members, motive m.2) → motive (.object members)) (p : Phrase) :
    motive p := by
  cases p with
  | null => exact null
  | boolean b => exact boolean b
  | number n => exact number n
  | string g => exact string g
  | list items =>
    exact list items fun p member => induct null boolean number string list object p
  | object members =>
    exact object members fun m member => induct null boolean number string list object m.2
termination_by p
decreasing_by
  · have less := List.sizeOf_lt_of_mem member
    rw [Phrase.list.sizeOf_spec]
    omega
  · have less := List.sizeOf_lt_of_mem member
    have pair : sizeOf m = 1 + sizeOf m.1 + sizeOf m.2 := Prod.mk.sizeOf_spec m.1 m.2
    rw [Phrase.object.sizeOf_spec]
    omega

end Phrase

/-- A text of blanks. -/
def Blanks (gap : List Char) : Prop := ∀ c ∈ gap, isBlank c = true

instance (gap : List Char) : Decidable (Blanks gap) :=
  decidable_of_iff (gap.all isBlank = true) List.all_eq_true

/-- What stands in front of the first element of a list, and of a later one. -/
inductive Lead : Bool → List Char → Prop
  | first {gap : List Char} (blank : Blanks gap) : Lead true gap
  | next {before after : List Char} (before_blank : Blanks before) (after_blank : Blanks after) :
      Lead false (before ++ ',' :: after)

/-- Elements with commas between them, up to the closing bracket. -/
inductive Listed {ι : Type} (spells : ι → List Char → Prop) : Bool → List ι → List Char → Prop
  | nil {first : Bool} {gap : List Char} (blank : Blanks gap) : Listed spells first [] gap
  | cons {first : Bool} {i : ι} {rest : List ι} {lead text later : List Char}
      (leads : Lead first lead) (here : spells i text) (there : Listed spells false rest later) :
      Listed spells first (i :: rest) (lead ++ (text ++ later))

/-- A member of an object. -/
inductive Entry (spells : Phrase → List Char → Prop) : Spelling × Phrase → List Char → Prop
  | mk {g : Spelling} {p : Phrase} {before after text : List Char} (before_blank : Blanks before)
      (after_blank : Blanks after) (here : spells p text) :
      Entry spells (g, p) ('"' :: (g.chars ++ '"' :: (before ++ ':' :: (after ++ text))))

/-- The texts of a phrase, from its first token to its last. -/
inductive Spells : Phrase → List Char → Prop
  | null : Spells .null ['n', 'u', 'l', 'l']
  | boolean (b : Bool) : Spells (.boolean b) (Value.boolean b).chars
  | number (n : Numeral) : Spells (.number n) n.chars
  | string (g : Spelling) : Spells (.string g) ('"' :: (g.chars ++ ['"']))
  | list {items : List Phrase} {inner : List Char} (listed : Listed Spells true items inner) :
      Spells (.list items) ('[' :: (inner ++ [']']))
  | object {members : List (Spelling × Phrase)} {inner : List Char}
      (listed : Listed (Entry Spells) true members inner) :
      Spells (.object members) ('{' :: (inner ++ ['}']))

section Written

theorem blanks_nil : Blanks [] := by decide

theorem lead_written (first : Bool) : Lead first (if first then [] else [',']) := by
  cases first with
  | true => exact .first blanks_nil
  | false => exact .next blanks_nil blanks_nil

mutual

/-- What is written for a value is a text of a phrase. -/
theorem exists_phrase (v : Value) : ∃ p, Spells p v.chars := by
  cases v with
  | null => exact ⟨.null, .null⟩
  | boolean b => exact ⟨.boolean b, .boolean b⟩
  | number n =>
    rw [Value.chars]
    rcases numberText_eq n with ⟨x, rfl, infinite⟩ | ⟨l, m, written, -, text⟩
    · rw [numberText, realText_of_infinite infinite]
      exact ⟨.null, .null⟩
    · rw [text, ← Numeral.chars_ofWritten written]
      exact ⟨_, .number _⟩
  | string s =>
    obtain ⟨g, chars, -⟩ := exists_spelling s.toList
    rw [Value.chars, quoted, ← chars]
    exact ⟨_, .string g⟩
  | list items =>
    obtain ⟨ps, listed⟩ := exists_items true items
    exact ⟨_, .list listed⟩
  | object members =>
    obtain ⟨ms, listed⟩ := exists_members true members
    exact ⟨_, .object listed⟩

theorem exists_items (first : Bool) (items : List Value) :
    ∃ ps, Listed Spells first ps (Value.itemChars first items) := by
  cases items with
  | nil => exact ⟨[], .nil blanks_nil⟩
  | cons v rest =>
    obtain ⟨p, here⟩ := exists_phrase v
    obtain ⟨ps, there⟩ := exists_items false rest
    exact ⟨p :: ps, .cons (lead_written first) here there⟩

theorem exists_members (first : Bool) (members : List (String × Value)) :
    ∃ ms, Listed (Entry Spells) first ms (Value.memberChars first members) := by
  cases members with
  | nil => exact ⟨[], .nil blanks_nil⟩
  | cons m rest =>
    obtain ⟨p, here⟩ := exists_phrase m.2
    obtain ⟨ms, there⟩ := exists_members false rest
    obtain ⟨g, chars, -⟩ := exists_spelling m.1.toList
    have entry : Entry Spells (g, p) _ := .mk blanks_nil blanks_nil here
    refine ⟨(g, p) :: ms, ?_⟩
    simpa [Value.memberChars, quoted, chars] using Listed.cons (lead_written first) entry there

end

end Written

end LiveRelay.Json
