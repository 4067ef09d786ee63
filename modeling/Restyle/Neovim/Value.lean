import Restyle.Text

/-!
# MessagePack Values

What requests, replies and notifications consist of.

The editor's handles for buffers and windows are values that only the editor can look into, so they
are passed back as they came. Of the other kinds only a few are ever looked at, and a value of another
kind than the expected one simply has no such content.

## Main definitions

* `Value`: A value.
* `Value.beq`: Whether two values are the same.
* `Value.int?`, `Value.bool?`, `Value.str?`, `Value.array?`: What a value holds, if it is of that kind.

## Theorems

* `eq_of_beq`, `beq_self`: Whether two values are the same is decided by `beq`.
-/

namespace Restyle.Neovim

/-- A MessagePack value. A float is kept as its decimal text. -/
inductive Value where
  | nil
  | bool (b : Bool)
  | int (n : Int)
  | float (decimal : Text)
  | str (t : Text)
  | bin (bytes : List UInt8)
  | array (items : List Value)
  | map (entries : List (Value × Value))
  | ext (kind : Int) (bytes : List UInt8)
  deriving Repr, Inhabited

namespace Value

mutual

/-- Whether two values are the same. -/
def beq : Value → Value → Bool
  | .nil, .nil => true
  | .bool a, .bool b => a == b
  | .int a, .int b => a == b
  | .float a, .float b => a == b
  | .str a, .str b => a == b
  | .bin a, .bin b => a == b
  | .array a, .array b => beqItems a b
  | .map a, .map b => beqEntries a b
  | .ext k a, .ext l b => k == l && a == b
  | _, _ => false

/-- Whether two arrays have the same items. -/
def beqItems : List Value → List Value → Bool
  | [], [] => true
  | a :: as, b :: bs => beq a b && beqItems as bs
  | _, _ => false

/-- Whether two maps have the same entries in the same order. -/
def beqEntries : List (Value × Value) → List (Value × Value) → Bool
  | [], [] => true
  | (k, a) :: as, (l, b) :: bs => beq k l && beq a b && beqEntries as bs
  | _, _ => false

end

mutual

/-- Values that are found to be the same are the same. -/
theorem eq_of_beq : ∀ a b : Value, beq a b = true → a = b
  | .nil, b, h => by
    cases b with
    | nil => rfl
    | _ => cases h
  | .bool a, b, h => by
    cases b with
    | bool b => exact congrArg bool (LawfulBEq.eq_of_beq h)
    | _ => cases h
  | .int a, b, h => by
    cases b with
    | int b => exact congrArg int (LawfulBEq.eq_of_beq h)
    | _ => cases h
  | .float a, b, h => by
    cases b with
    | float b => exact congrArg float (LawfulBEq.eq_of_beq h)
    | _ => cases h
  | .str a, b, h => by
    cases b with
    | str b => exact congrArg str (LawfulBEq.eq_of_beq h)
    | _ => cases h
  | .bin a, b, h => by
    cases b with
    | bin b => exact congrArg bin (LawfulBEq.eq_of_beq h)
    | _ => cases h
  | .array a, b, h => by
    cases b with
    | array b => exact congrArg array (eq_of_beqItems a b h)
    | _ => cases h
  | .map a, b, h => by
    cases b with
    | map b => exact congrArg map (eq_of_beqEntries a b h)
    | _ => cases h
  | .ext k a, b, h => by
    cases b with
    | ext l b =>
      rw [beq, Bool.and_eq_true] at h
      rw [LawfulBEq.eq_of_beq h.1, LawfulBEq.eq_of_beq h.2]
    | _ => cases h

theorem eq_of_beqItems : ∀ as bs : List Value, beqItems as bs = true → as = bs
  | [], bs, h => by
    cases bs with
    | nil => rfl
    | cons _ _ => cases h
  | a :: as, bs, h => by
    cases bs with
    | nil => cases h
    | cons b bs =>
      rw [beqItems, Bool.and_eq_true] at h
      rw [eq_of_beq a b h.1, eq_of_beqItems as bs h.2]

theorem eq_of_beqEntries : ∀ as bs : List (Value × Value), beqEntries as bs = true → as = bs
  | [], bs, h => by
    cases bs with
    | nil => rfl
    | cons _ _ => cases h
  | (k, a) :: as, bs, h => by
    cases bs with
    | nil => cases h
    | cons e bs =>
      rcases e with ⟨l, b⟩
      rw [beqEntries, Bool.and_eq_true, Bool.and_eq_true] at h
      rw [eq_of_beq k l h.1.1, eq_of_beq a b h.1.2, eq_of_beqEntries as bs h.2]

end

mutual

/-- A value is found to be the same as itself. -/
theorem beq_self : ∀ a : Value, beq a a = true
  | .nil => rfl
  | .bool a => beq_self_eq_true a
  | .int a => beq_self_eq_true a
  | .float a => beq_self_eq_true a
  | .str a => beq_self_eq_true a
  | .bin a => beq_self_eq_true a
  | .array a => beqItems_self a
  | .map a => beqEntries_self a
  | .ext k a => by rw [beq, beq_self_eq_true, beq_self_eq_true, Bool.and_true]

theorem beqItems_self : ∀ as : List Value, beqItems as as = true
  | [] => rfl
  | a :: as => by rw [beqItems, beq_self a, beqItems_self as, Bool.and_true]

theorem beqEntries_self : ∀ as : List (Value × Value), beqEntries as as = true
  | [] => rfl
  | (k, a) :: as => by
    rw [beqEntries, beq_self k, beq_self a, beqEntries_self as, Bool.and_true, Bool.and_true]

end

instance : DecidableEq Value := fun a b =>
  decidable_of_iff (beq a b = true) ⟨eq_of_beq a b, fun h => h ▸ beq_self a⟩

/-- The integer of a value, if it fits a signed word. -/
def int? : Value → Option Int
  | .int n => if Int64.minValue.toInt ≤ n ∧ n ≤ Int64.maxValue.toInt then some n else none
  | _ => none

/-- The boolean of a value. -/
def bool? : Value → Option Bool
  | .bool b => some b
  | _ => none

/-- The text of a value. -/
def str? : Value → Option Text
  | .str t => some t
  | _ => none

/-- The items of a value. -/
def array? : Value → Option (List Value)
  | .array items => some items
  | _ => none

/-- The texts of a value that is an array of texts. -/
def strs? (v : Value) : Option (List Text) := do
  (← v.array?).mapM str?

/-- The two integers of a value that is a pair of them. -/
def pair? : Value → Option (Int × Int)
  | .array [a, b] => do
    let a ← a.int?
    let b ← b.int?
    some (a, b)
  | _ => none

end Value

end Restyle.Neovim
