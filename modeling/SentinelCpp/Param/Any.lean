import Mathlib.Data.Nat.Notation

/-!
# Argument values

Arguments are `absl::any`.  `AnyCmp` hashes and compares three types by value; a value of any other
type hashes to `size_t(-1)` and equals nothing, itself included.  (The type test for strings is a
substring test on the mangled name; types that pass it without being `std::string` make the cast throw
and are not among the values.)
-/

namespace SentinelCpp.Param

/-- `absl::any`: `int32_t`, `int64_t`, `std::string`, or a value of another type. -/
inductive AnyVal
  | int32 (v : Int32)
  | int64 (v : Int64)
  | str (v : String)
  | other (typeName : String)
  deriving DecidableEq

namespace AnyVal

/-- One of the three types `AnyCmp` knows. -/
def supported : AnyVal → Bool
  | other _ => false
  | _ => true

/-- `operator==(const any&, const any&)`. -/
def equal : AnyVal → AnyVal → Bool
  | int32 a, int32 b => a = b
  | int64 a, int64 b => a = b
  | str a, str b => a = b
  | _, _ => false

/-- `std::hash<absl::any>`; `31 * v` is computed in the type of `v` and then converted to `size_t`. -/
def hash (hashString : String → UInt64) : AnyVal → UInt64
  | int32 v => (31 * v).toInt64.toUInt64
  | int64 v => (31 * v).toUInt64
  | str s => hashString s
  | other _ => -1

theorem equal_iff {a b : AnyVal} : a.equal b = true ↔ a = b ∧ a.supported = true := by
  cases a <;> cases b <;> simp [equal, supported]

end AnyVal

end SentinelCpp.Param
