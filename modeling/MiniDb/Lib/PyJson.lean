/-
  JSON values as the objects a dynamically typed program has of them: truth, addition,
  comparison and hashing, with the exceptions these raise.

  A sum of floats is exact here; what does not fit a float raises, as converting an integer
  does. `true` and `false` are the numbers 1 and 0.
-/
import MiniDb.Lib.Json
import Mathlib.Algebra.Order.Ring.Rat

namespace Lib

/-- The exceptions of reading a JSON text and of using its values. -/
inductive PyError where
  | jsonDecodeError
  | keyError
  | valueError
  | typeError
  | overflowError
  | recursionError
  deriving DecidableEq

/-- A value as a key of a dict: numbers that are equal are one key. -/
inductive HashKey where
  | none
  | num (x : ℚ)
  | str (s : String)
  deriving DecidableEq

namespace Json

/-- `bool(v)` -/
def truthy : Json → Bool
  | .null => false
  | .bool b => b
  | .int n => n ≠ 0
  | .float x => x ≠ 0
  | .str s => s ≠ ""
  | .arr vs => !vs.isEmpty
  | .obj fields => !fields.isEmpty

def integer? : Json → Option Int
  | .bool b => some (if b then 1 else 0)
  | .int n => some n
  | _ => none

/-- The integer rounds to a finite double. -/
def fitsFloat (n : Int) : Bool := n.natAbs < 2 ^ 1024 - 2 ^ 970

theorem pow_sub_pow_pos {m n : Nat} (h : m < n) : 0 < 2 ^ n - 2 ^ m :=
  Nat.sub_pos_of_lt (Nat.pow_lt_pow_right Nat.one_lt_two h)

theorem fitsFloat_zero : fitsFloat 0 = true :=
  decide_eq_true (pow_sub_pow_pos (show 970 < 1024 by decide))

/-- A number as an operand next to a float. -/
def asFloat : Json → Except PyError ℚ
  | .float x => .ok x
  | v => match v.integer? with
    | some n => if fitsFloat n then .ok n else .error .overflowError
    | none => .error .typeError

/-- `v + w` -/
def add : Json → Json → Except PyError Json
  | .str s, .str t => .ok (.str (s ++ t))
  | .arr vs, .arr ws => .ok (.arr (vs ++ ws))
  | .float x, w => (asFloat w).map fun y => .float (x + y)
  | v, .float y => (asFloat v).map fun x => .float (x + y)
  | v, w => match v.integer?, w.integer? with
    | some m, some n => .ok (.int (m + n))
    | _, _ => .error .typeError

/-- `v <= now`, for a float -/
def atMost (v : Json) (now : ℚ) : Except PyError Bool :=
  match v.number? with
  | some x => .ok (decide (x ≤ now))
  | none => .error .typeError

/-- `hash(v)`, with what `==` makes of the value. -/
def hashKey : Json → Except PyError HashKey
  | .null => .ok .none
  | .bool b => .ok (.num (if b then 1 else 0))
  | .int n => .ok (.num n)
  | .float x => .ok (.num x)
  | .str s => .ok (.str s)
  | _ => .error .typeError

/-! ## Numbers -/

/-- A time or a time span that JSON text has given: an integer or a float. -/
def IsNumber (v : Json) (x : ℚ) : Prop := v = .float x ∨ ∃ n : Int, v = .int n ∧ x = n

theorem IsNumber.ne_null {v : Json} {x : ℚ} (h : IsNumber v x) : v ≠ .null := by
  rcases h with rfl | ⟨n, rfl, -⟩
  · simp
  · simp

theorem IsNumber.truthy {v : Json} {x : ℚ} (h : IsNumber v x) : v.truthy = decide (x ≠ 0) := by
  rcases h with rfl | ⟨n, rfl, rfl⟩
  · rfl
  · simp [Json.truthy]

theorem IsNumber.atMost {v : Json} {x : ℚ} (h : IsNumber v x) (now : ℚ) :
    v.atMost now = .ok (decide (x ≤ now)) := by
  rcases h with rfl | ⟨n, rfl, rfl⟩
  · rfl
  · rfl

/-- Adding an integer to a number, which raises when a float comes with too great an integer. -/
theorem IsNumber.add_int {v : Json} {x : ℚ} (h : IsNumber v x) {n : Int}
    (hfits : (∃ y, v = .float y) → fitsFloat n = true) :
    ∃ w, v.add (.int n) = .ok w ∧ IsNumber w (x + n) := by
  rcases h with rfl | ⟨m, rfl, rfl⟩
  · refine ⟨.float (x + n), ?_, .inl rfl⟩
    simp only [add, asFloat, integer?, hfits ⟨x, rfl⟩, if_true]
    rfl
  · exact ⟨.int (m + n), rfl, .inr ⟨m + n, rfl, by push_cast; rfl⟩⟩

theorem add_int_overflow (x : ℚ) {n : Int} (h : fitsFloat n = false) :
    add (.float x) (.int n) = .error .overflowError := by
  simp only [add, asFloat, integer?, h, Bool.false_eq_true, if_false]
  rfl

end Json

end Lib
