import HeteroCluster.CheckpointManifest
import Mathlib.Data.String.Lemmas

namespace HeteroCluster.ObjectKeys

open GoStrings CheckpointManifest

/-- A step printed with at least eight digits. -/
def stepText (step : UInt64) : String := String.leftpad 8 '0' (toString step.toNat)

def objectKey (run : String) (step : UInt64) (storagePath : String) : String :=
  "checkpoints/" ++ run ++ "/step_" ++ stepText step ++ "/" ++ storagePath

def markerKey (run : String) (step : UInt64) : String :=
  "checkpoints/" ++ run ++ "/step_" ++ stepText step ++ ".complete"

variable {run run' path path' : String} {step step' : UInt64}

theorem toList_stepText (step : UInt64) : (stepText step).toList =
    List.replicate (8 - (Nat.toDigits 10 step.toNat).length) '0' ++ Nat.toDigits 10 step.toNat := by
  simp [stepText, String.leftpad, List.leftpad]

theorem ofDigitChars_stepText (step : UInt64) :
    Nat.ofDigitChars 10 (stepText step).toList 0 = step.toNat := by
  rw [toList_stepText, Nat.ofDigitChars_append, Nat.ofDigitChars_replicate_zero, Nat.mul_zero,
    Nat.ofDigitChars_ten_toDigits]

theorem stepText_injective : Function.Injective stepText := by
  intro a b h
  apply UInt64.toNat_inj.mp
  rw [← ofDigitChars_stepText a, ← ofDigitChars_stepText b, h]

theorem isDigit_of_mem_stepText {c : Char} (h : c ∈ (stepText step).toList) : c.isDigit = true := by
  rw [toList_stepText] at h
  obtain hz | hd := List.mem_append.mp h
  · rw [List.eq_of_mem_replicate hz]
    decide
  · exact Nat.isDigit_of_mem_toDigits (by decide) (by decide) hd

theorem parseUint_stepText (step : UInt64) : parseUint (stepText step) = some step := by
  have hne : (stepText step).toList ≠ [] := by
    rw [toList_stepText]
    simp
  have hdigits : (stepText step).toList.all Char.isDigit = true := by
    rw [List.all_eq_true]
    intro c hc
    exact isDigit_of_mem_stepText hc
  have hbound : step.toNat < 2 ^ 64 := step.toNat_lt
  rw [parseUint, decimal, if_pos ⟨hne, hdigits⟩, ofDigitChars_stepText, Option.bind_some,
    if_pos hbound, UInt64.ofNat_toNat]

theorem not_slash_of_idPattern (h : idPattern run = true) : '/' ∉ run.toList := by
  intro hm
  unfold idPattern hasForm at h
  cases hr : run.toList with
  | nil => simp [hr] at hm
  | cons c cs =>
    rw [hr] at h hm
    simp only [Bool.and_eq_true, List.all_eq_true] at h
    obtain hc | hc := List.mem_cons.mp hm
    · rw [← hc] at h
      exact absurd h.1.1 (by decide)
    · exact absurd (h.1.2 '/' hc) (by decide)

theorem run_eq_of_key {rest rest' : List Char} (hr : idPattern run = true)
    (hr' : idPattern run' = true)
    (h : "checkpoints/".toList ++ (run.toList ++ '/' :: rest) =
      "checkpoints/".toList ++ (run'.toList ++ '/' :: rest')) : run = run' ∧ rest = rest' := by
  have hcut := append_cons_inj (not_slash_of_idPattern hr) (not_slash_of_idPattern hr')
    (List.append_cancel_left h)
  exact ⟨String.toList_injective hcut.1, hcut.2⟩

theorem slash_step : "/step_" = "/" ++ "step_" := by decide +kernel

theorem toList_slash : "/".toList = ['/'] := by decide +kernel

/-- The parts of a key, with its literals as variables, so that no unifier
computes their characters. -/
theorem toList_key {joined slash head : String} (hj : joined = slash ++ head)
    (hs : slash.toList = ['/']) (start run digits rest : String) :
    (start ++ run ++ joined ++ digits ++ rest).toList =
      start.toList ++ (run.toList ++ '/' :: (head.toList ++ digits.toList ++ rest.toList)) := by
  subst hj
  simp [hs]

theorem toList_objectKey (run : String) (step : UInt64) (path : String) :
    (objectKey run step path).toList = "checkpoints/".toList ++
      (run.toList ++ '/' :: ("step_".toList ++ (stepText step).toList ++ '/' :: path.toList)) := by
  have hkey : objectKey run step path =
      "checkpoints/" ++ run ++ "/step_" ++ stepText step ++ ("/" ++ path) := String.append_assoc
  have hpath : ("/" ++ path).toList = '/' :: path.toList := by
    rw [String.toList_append, toList_slash, List.singleton_append]
  rw [hkey, ← hpath]
  exact toList_key slash_step toList_slash "checkpoints/" run (stepText step) ("/" ++ path)

theorem toList_markerKey (run : String) (step : UInt64) :
    (markerKey run step).toList = "checkpoints/".toList ++
      (run.toList ++ '/' :: ("step_".toList ++ (stepText step).toList ++ ".complete".toList)) :=
  toList_key slash_step toList_slash "checkpoints/" run (stepText step) ".complete"

theorem not_slash_stepText (step : UInt64) : '/' ∉ "step_".toList ++ (stepText step).toList := by
  intro hm
  obtain hs | hd := List.mem_append.mp hm
  · exact absurd hs (by decide)
  · exact absurd (isDigit_of_mem_stepText hd) (by decide)

theorem objectKey_injective (hr : idPattern run = true) (hr' : idPattern run' = true)
    (h : objectKey run step path = objectKey run' step' path') :
    run = run' ∧ step = step' ∧ path = path' := by
  have hl := congrArg String.toList h
  rw [toList_objectKey, toList_objectKey] at hl
  obtain ⟨hrun, hrest⟩ := run_eq_of_key hr hr' hl
  obtain ⟨hstep, hpath⟩ := append_cons_inj (not_slash_stepText step) (not_slash_stepText step') hrest
  have htext := String.toList_injective (List.append_cancel_left hstep)
  exact ⟨hrun, stepText_injective htext, String.toList_injective hpath⟩

theorem markerKey_injective (hr : idPattern run = true) (hr' : idPattern run' = true)
    (h : markerKey run step = markerKey run' step') : run = run' ∧ step = step' := by
  have hl := congrArg String.toList h
  rw [toList_markerKey, toList_markerKey] at hl
  obtain ⟨hrun, hrest⟩ := run_eq_of_key hr hr' hl
  have htext := List.append_cancel_left (List.append_cancel_right hrest)
  exact ⟨hrun, stepText_injective (String.toList_injective htext)⟩

theorem markerKey_ne_objectKey (hr : idPattern run = true) (hr' : idPattern run' = true) :
    markerKey run step ≠ objectKey run' step' path := by
  intro h
  have hl := congrArg String.toList h
  rw [toList_markerKey, toList_objectKey] at hl
  obtain ⟨-, hrest⟩ := run_eq_of_key hr hr' hl
  -- an object key has a slash after the step, a marker key has none
  have hm : '/' ∈ "step_".toList ++ (stepText step).toList ++ ".complete".toList := by
    rw [hrest]
    exact List.mem_append_right _ List.mem_cons_self
  obtain hs | hc := List.mem_append.mp hm
  · exact not_slash_stepText step hs
  · exact absurd hc (by decide)

end HeteroCluster.ObjectKeys
