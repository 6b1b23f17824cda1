import SentinelCpp.Lib.Assoc
import SentinelCpp.Lib.Text

/-!
# Requests and responses of commands

A `CommandRequest` keeps its parameters and its metadata in maps: a key that comes again gets the new
value.
-/

namespace SentinelCpp.Transport

open Lib

def kRequestTarget : Text := "command-target".toList

structure CommandRequest where
  metadata : Assoc Text Text := []
  parameters : Assoc Text Text := []
  body : Text := []

/-- `CommandResponse`. -/
structure CommandResponse where
  success : Bool
  result : Text
  deriving DecidableEq

def CommandResponse.ofSuccess (result : Text) : CommandResponse := ⟨true, result⟩
def CommandResponse.ofFailure (result : Text) : CommandResponse := ⟨false, result⟩

namespace CommandRequest

variable (r : CommandRequest) (key value : Text)

def setBody (body : Text) : CommandRequest := { r with body := body }

/-- `GetParam(key)`. -/
def getParam : Text :=
  match r.parameters.find? key with
  | none => []
  | some value => value

/-- `AddParam(key, value)`: an empty key is ignored. -/
def addParam : CommandRequest :=
  if key = [] then r else { r with parameters := r.parameters.set key value }

/-- `AddMetadata(key, value)`. -/
def addMetadata : CommandRequest :=
  if key = [] then r else { r with metadata := r.metadata.set key value }

/-- `GetMetadata(key)`. -/
def getMetadata : Text :=
  match r.metadata.find? key with
  | none => []
  | some value => value

/-! ### What is read back -/

/-- The parameters added in turn. -/
def addParams (params : List (Text × Text)) : CommandRequest :=
  params.foldl (fun r param => r.addParam param.1 param.2) r

variable {r key value}

theorem addParam_metadata : (r.addParam key value).metadata = r.metadata := by
  unfold addParam
  split_ifs <;> rfl

theorem addParams_metadata (params : List (Text × Text)) :
    (r.addParams params).metadata = r.metadata := by
  unfold addParams
  induction params generalizing r with
  | nil => rfl
  | cons param params ih => rw [List.foldl_cons, ih, addParam_metadata]

theorem addMetadata_parameters : (r.addMetadata key value).parameters = r.parameters := by
  unfold addMetadata
  split_ifs <;> rfl

theorem addParams_parameters {r' : CommandRequest} {params : List (Text × Text)}
    (h : r.parameters = r'.parameters) :
    (r.addParams params).parameters = (r'.addParams params).parameters := by
  unfold addParams
  induction params generalizing r r' with
  | nil => exact h
  | cons param params ih =>
    rw [List.foldl_cons, List.foldl_cons]
    refine ih ?_
    unfold addParam
    split_ifs
    · exact h
    · show r.parameters.set _ _ = r'.parameters.set _ _
      rw [h]

theorem getMetadata_addMetadata (hkey : key ≠ []) : (r.addMetadata key value).getMetadata key = value := by
  unfold getMetadata addMetadata
  rw [if_neg hkey]
  dsimp only
  rw [Assoc.find?_set, if_pos rfl]

/-- **The last value of a key is the one that is read.** -/
theorem find?_addParams {params : List (Text × Text)} (hkeys : ∀ p ∈ params, p.1 ≠ []) (k : Text) :
    (r.addParams params).parameters.find? k =
      ((params.reverse.find? fun p => p.1 = k).map Prod.snd).or (r.parameters.find? k) := by
  unfold addParams
  induction params using List.reverseRecOn with
  | nil => rfl
  | append_singleton params p ih =>
    have hp : p.1 ≠ [] := hkeys p (List.mem_append_right _ (List.mem_singleton_self p))
    rw [List.foldl_append, List.foldl_cons, List.foldl_nil, addParam, if_neg hp]
    dsimp only
    rw [Assoc.find?_set, ih fun q hq => hkeys q (List.mem_append_left _ hq), List.reverse_append,
      List.reverse_singleton, List.singleton_append, List.find?_cons]
    by_cases hk : k = p.1
    · rw [if_pos hk, decide_eq_true hk.symm]
      rfl
    · rw [if_neg hk, decide_eq_false (Ne.symm hk)]

/-- No key has two values. -/
def OneValue (params : List (Text × Text)) : Prop :=
  ∀ p ∈ params, ∀ q ∈ params, p.1 = q.1 → p.2 = q.2

instance (params : List (Text × Text)) : Decidable (OneValue params) :=
  inferInstanceAs (Decidable (∀ p ∈ params, ∀ q ∈ params, _))

/-- Every pair is read back exactly when no key has two values. -/
theorem addParams_iff_oneValue {params : List (Text × Text)} (hkeys : ∀ p ∈ params, p.1 ≠ []) :
    (∀ p ∈ params, (r.addParams params).parameters.find? p.1 = some p.2) ↔ OneValue params := by
  constructor
  · intro hread p hp q hq hkey
    have hsame := hread p hp
    rw [hkey, hread q hq, Option.some.injEq] at hsame
    exact hsame.symm
  · intro hone p hp
    rw [find?_addParams hkeys]
    obtain ⟨q, hq⟩ : ∃ q, (params.reverse.find? fun q => q.1 = p.1) = some q := by
      rw [← Option.isSome_iff_exists, List.find?_isSome]
      exact ⟨p, List.mem_reverse.mpr hp, decide_eq_true rfl⟩
    have hkey : q.1 = p.1 := by simpa using List.find?_some hq
    rw [hq, Option.map_some, Option.some_or, hone q (List.mem_reverse.mp (List.mem_of_find?_eq_some hq)) p
      hp hkey]

end CommandRequest

end SentinelCpp.Transport
