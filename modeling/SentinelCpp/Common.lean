import Mathlib.Algebra.Order.Ring.Int
import Mathlib.Data.List.Perm.Basic
import Mathlib.Data.Rat.Defs

/-!
# Constants and small types shared by the components

Times are readings of the millisecond clock.  Counters of type `int64_t` and `long` are integers
(the totals of a run stay far below 2^63); the thread counter of a node is `UInt32` because the code
decrements it.  Thresholds and rates (`double`) are rationals.
-/

namespace SentinelCpp

namespace Constants

def kDefaultSampleCount : ℕ := 2
def kDefaultIntervalMs : ℕ := 1000
def kLimitOriginDefault : String := "default"
def kLimitOriginOther : String := "other"
def kMaxAllowedRt : ℤ := 4900
def kMaxTagSize : ℕ := 1000

end Constants

/-- `EntryType`: inbound or outbound traffic. -/
inductive EntryType
  | IN
  | OUT
  deriving DecidableEq, Repr

/-- `TokenResult`: the status with the data that belongs to it. -/
inductive TokenResult
  | ok
  | blocked (blockedReason : String)
  | shouldWait (waitMs : ℕ)
  deriving DecidableEq, Repr

/-- `status() == RESULT_STATUS_BLOCKED`. -/
def TokenResult.isBlocked : TokenResult → Bool
  | blocked _ => true
  | _ => false

/-- The order in which an unordered container is iterated: unspecified, but every element once. -/
structure IterationOrder (α : Type) where
  order : List α → List α
  perm : ∀ l, (order l).Perm l

/-- Insertion order, one possible iteration order. -/
def IterationOrder.insertion (α : Type) : IterationOrder α := ⟨id, fun _ => .rfl⟩

theorem IterationOrder.order_nil {α : Type} (o : IterationOrder α) : o.order [] = [] :=
  (o.perm []).eq_nil

/-- A conversion to `int` (32 bits, two's complement).  Sums of type `int` are taken this way: they wrap. -/
def toInt32 (x : ℤ) : ℤ := Int.bmod x (2 ^ 32)

theorem toInt32_lt (x : ℤ) : toInt32 x < 2 ^ 31 := Int.bmod_lt (by omega)

theorem toInt32_of_bounds {x : ℤ} (h : -2 ^ 31 ≤ x) (h' : x < 2 ^ 31) : toInt32 x = x :=
  Int.bmod_eq_of_le (by omega) (by omega)

/-- A sum wraps the same whether or not its terms have been wrapped before. -/
@[simp] theorem toInt32_add_left (x y : ℤ) : toInt32 (toInt32 x + y) = toInt32 (x + y) :=
  Int.bmod_add_bmod

@[simp] theorem toInt32_add_right (x y : ℤ) : toInt32 (x + toInt32 y) = toInt32 (x + y) :=
  Int.add_bmod_bmod

@[simp] theorem toInt32_toInt32 (x : ℤ) : toInt32 (toInt32 x) = toInt32 x := Int.bmod_bmod

@[simp] theorem toInt32_zero : toInt32 0 = 0 := Int.zero_bmod

/-- The loop `for (x : xs) sum += x` on an `int`. -/
def addInt32 (sum : ℤ) (xs : List ℤ) : ℤ := xs.foldl (fun sum x => toInt32 (sum + x)) sum

theorem addInt32_eq (x : ℤ) (xs : List ℤ) : addInt32 (toInt32 x) xs = toInt32 (x + xs.sum) := by
  induction xs generalizing x with
  | nil => rw [addInt32, List.foldl_nil, List.sum_nil, add_zero]
  | cons y ys ih =>
    have hstep : addInt32 (toInt32 x) (y :: ys) = addInt32 (toInt32 (x + y)) ys := by
      rw [addInt32, List.foldl_cons, toInt32_add_left, addInt32]
    rw [hstep, ih, List.sum_cons, add_assoc]

end SentinelCpp
