import LiveRelay.Json.Writer
import LiveRelay.Proofs.Decimal.Literal

/-! # The characters of a written value

A value is written from left to right by appending to a text. What is appended depends on the value
alone, and it is described here by recursion on the value. Every number but an infinite one is
written as a literal that can be read, and a number of one machine word keeps its value.
-/

namespace LiveRelay

namespace Literal

/-- A literal with its sign, as it stands in a text. -/
def signed (l : Literal) : List Char := (if l.negative then ['-'] else []) ++ l.chars 'e'

/-- A whole number as a literal. -/
def ofNat (negative : Bool) (n : Nat) : Literal := ⟨negative, Nat.toDigits 10 n, none, none⟩

theorem written_ofNat (negative : Bool) (n : Nat) : (ofNat negative n).Written where
  digits c member := Nat.isDigit_of_mem_toDigits (by decide) (by decide) member
  whole := by
    rcases Nat.eq_zero_or_pos n with rfl | pos
    · exact .inl rfl
    · exact .inr (Decimal.toDigits_first pos)
  fraction := nofun
  exponent := nofun

theorem value_ofNat (negative : Bool) {n : Nat} (fits : n < UInt64.size) :
    (ofNat negative n).value = .ok (integer negative n) := by
  have digits : Nat.ofDigitChars 10 (Nat.toDigits 10 n) 0 = n := Nat.ofDigitChars_ten_toDigits
  have whole := absorb_all (l := Nat.toDigits 10 n) (by rw [digits]; exact fits) 0
  rw [digits, Nat.zero_add] at whole
  simp [value, ofNat, whole]

theorem signed_ofNat (negative : Bool) (n : Nat) :
    (ofNat negative n).signed = (if negative then ['-'] else []) ++ Nat.toDigits 10 n := by
  cases negative <;> simp [signed, ofNat, chars]

end Literal

namespace Binary64

/-- The double that the text of a double is read as: the value of the literal in it. -/
def reread (x : Binary64) : Binary64 :=
  match (x.literal Json.realLayout).value with
  | .ok n => n.toReal
  | .error _ => x

theorem value_reread {x : Binary64} (finite : x.isFinite = true) :
    (x.literal Json.realLayout).value = .ok (.real x.reread) := by
  obtain ⟨y, value⟩ : ∃ y, (x.literal Json.realLayout).value = .ok (.real y) :=
    value_literal finite rfl
  simp only [reread, value, Number.toReal]

end Binary64

namespace Json

open Literal

theorem toList_realText {x : Binary64} (finite : x.isFinite = true) :
    (realText x).toList = (x.literal realLayout).signed := by
  unfold Binary64.literal
  split
  · next zero => simp [realText, finite, zero, signed, chars, Decimal.fractional]
  · next nonzero =>
    simp only [realText, finite, nonzero, if_true, if_false, String.toList_ofList]
    rw [Decimal.render_eq x.isNegative, signed, Decimal.negative_literal]
    rfl

theorem realText_of_infinite {x : Binary64} (infinite : x.isFinite = false) :
    (realText x).toList = ['n', 'u', 'l', 'l'] := by
  simp [realText, infinite]

theorem numberText_unsigned (n : UInt64) :
    (numberText (.unsigned n)).toList = (ofNat false n.toNat).signed := by
  simp [numberText, signed_ofNat]

/-- Every number is written as a literal that has a value, or else as `null`. -/
theorem numberText_eq (n : Number) : (∃ x, n = .real x ∧ x.isFinite = false) ∨
    ∃ l m, Written l ∧ l.value = .ok m ∧ (numberText n).toList = l.signed := by
  cases n with
  | unsigned n =>
    exact .inr ⟨_, _, written_ofNat false _, value_ofNat false n.toNat_lt, numberText_unsigned n⟩
  | negative i below =>
    refine .inr ⟨_, _, written_ofNat true i.toInt.natAbs, value_ofNat true ?_, ?_⟩
    · have least := i.le_toInt
      have most := i.toInt_lt
      unfold UInt64.size
      omega
    · simp [numberText, signed_ofNat]
  | real x =>
    cases finite : x.isFinite with
    | true =>
      exact .inr ⟨_, _, Binary64.written_literal finite _, Binary64.value_reread finite,
        toList_realText finite⟩
    | false => exact .inl ⟨x, rfl, finite⟩

/-- A string as it is written, with its quotes. -/
def quoted (s : String) : List Char := '"' :: (s.toList.flatMap escapeChar ++ ['"'])

theorem toList_appendString (out s : String) :
    (appendString out s).toList = out.toList ++ quoted s := by
  have pushed (l : List Char) (t : String) : (l.foldl String.push t).toList = t.toList ++ l := by
    induction l generalizing t with
    | nil => simp
    | cons c l ih => simp [ih]
  have escaped (l : List Char) (t : String) :
      (l.foldl (fun t c => (escapeChar c).foldl String.push t) t).toList =
        t.toList ++ l.flatMap escapeChar := by
    induction l generalizing t with
    | nil => simp
    | cons c l ih => simp [ih, pushed]
  simp [appendString, quoted, escaped]

namespace Value

mutual

/-- A value as it is written. -/
def chars : Value → List Char
  | .null => ['n', 'u', 'l', 'l']
  | .boolean b => if b then ['t', 'r', 'u', 'e'] else ['f', 'a', 'l', 's', 'e']
  | .number n => (numberText n).toList
  | .string s => quoted s
  | .list items => '[' :: (itemChars true items ++ [']'])
  | .object members => '{' :: (memberChars true members ++ ['}'])

/-- Items as they are written, each but the first after a comma. -/
def itemChars (first : Bool) : List Value → List Char
  | [] => []
  | v :: rest => (if first then [] else [',']) ++ (v.chars ++ itemChars false rest)

/-- Members as they are written, each but the first after a comma. -/
def memberChars (first : Bool) : List (String × Value) → List Char
  | [] => []
  | (k, v) :: rest =>
    (if first then [] else [',']) ++ (quoted k ++ (':' :: v.chars ++ memberChars false rest))

end

mutual

theorem toList_append (out : String) (v : Value) :
    (v.append out).toList = out.toList ++ v.chars := by
  cases v with
  | null => simp [append, chars]
  | boolean b => cases b <;> simp [append, chars]
  | number n => simp [append, chars]
  | string s => rw [append, chars, toList_appendString]
  | list items => simp [append, chars, toList_appendItems]
  | object members => simp [append, chars, toList_appendMembers]

theorem toList_appendItems (out : String) (first : Bool) (items : List Value) :
    (appendItems out first items).toList = out.toList ++ itemChars first items := by
  cases items with
  | nil => simp [appendItems, itemChars]
  | cons v rest =>
    rw [appendItems, itemChars, toList_appendItems, toList_append]
    cases first <;> simp

theorem toList_appendMembers (out : String) (first : Bool) (members : List (String × Value)) :
    (appendMembers out first members).toList = out.toList ++ memberChars first members := by
  cases members with
  | nil => simp [appendMembers, memberChars]
  | cons m rest =>
    obtain ⟨k, v⟩ := m
    rw [appendMembers, memberChars]
    rw [toList_appendMembers, toList_append, String.toList_push, toList_appendString]
    cases first <;> simp

end

theorem toList_text (v : Value) : v.text.toList = v.chars := by
  rw [text, toList_append]
  simp

theorem itemChars_eq (items : List Value) :
    itemChars true items = [','].intercalate (items.map chars) := by
  cases items with
  | nil => rfl
  | cons v rest =>
    induction rest generalizing v with
    | nil => simp [itemChars]
    | cons w rest ih => simpa [itemChars] using ih w

/-- A list is written as its items with commas between them. -/
theorem text_list (items : List Value) :
    (Value.list items).text = "[" ++ ",".intercalate (items.map text) ++ "]" := by
  have each : (items.map text).map String.toList = items.map chars := by
    rw [List.map_map]
    exact List.map_congr_left fun v _ => v.toList_text
  apply String.toList_inj.mp
  simp [toList_text, chars, itemChars_eq, String.toList_intercalate, each]

mutual

/-- How many brackets a value opens inside each other. -/
def depth : Value → Nat
  | .list items => itemsDepth items + 1
  | .object members => membersDepth members + 1
  | _ => 0

/-- How many brackets the items of a list open inside each other. -/
def itemsDepth : List Value → Nat
  | [] => 0
  | v :: rest => max v.depth (itemsDepth rest)

/-- How many brackets the members of an object open inside each other. -/
def membersDepth : List (String × Value) → Nat
  | [] => 0
  | (_, v) :: rest => max v.depth (membersDepth rest)

end

theorem itemsDepth_le_iff {items : List Value} {d : Nat} :
    itemsDepth items ≤ d ↔ ∀ v ∈ items, v.depth ≤ d := by
  induction items with
  | nil => simp [itemsDepth]
  | cons v rest ih => simp [itemsDepth, ih]

theorem membersDepth_le_iff {members : List (String × Value)} {d : Nat} :
    membersDepth members ≤ d ↔ ∀ m ∈ members, m.2.depth ≤ d := by
  induction members with
  | nil => simp [membersDepth]
  | cons m rest ih => simp [membersDepth, ih]

end Value

end Json

end LiveRelay
