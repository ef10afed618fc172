import HeteroCluster.CleanPaths
import HeteroCluster.ObjectKeys

namespace HeteroCluster.StoragePaths

open GoStrings CleanPaths CheckpointManifest ObjectKeys

def stepDirectory (run : String) (step : UInt64) : List (List Char) :=
  ["checkpoints".toList, run.toList, "step_".toList ++ (stepText step).toList]

/-- A storage path that names an object of the step it is used in. -/
structure StaysInside (value : String) : Prop where
  components : value.toList.splitOn '/' ≠ []
  plain : ∀ w ∈ value.toList.splitOn '/', Plain w
  below : ∀ run step, idPattern run = true → ∃ rest, rest ≠ [] ∧
    resolve (objectKey run step value) = stepDirectory run step ++ rest

variable {value run : String}

theorem plain_of_idPattern (h : idPattern run = true) : Plain run.toList := by
  unfold idPattern hasForm at h
  cases hr : run.toList with
  | nil => simp [hr] at h
  | cons c cs =>
    rw [hr] at h
    simp only [Bool.and_eq_true] at h
    refine ⟨by simp, ?_, ?_⟩
    · rintro ⟨⟩
      exact absurd h.1.1 (by decide)
    · rintro ⟨⟩
      exact absurd h.1.1 (by decide)

theorem plain_stepDirectory (step : UInt64) (h : idPattern run = true) :
    ∀ w ∈ stepDirectory run step, Plain w := by
  have hfirst : Plain "checkpoints".toList := ⟨by decide, by decide, by decide⟩
  have hlast : Plain ("step_".toList ++ (stepText step).toList) :=
    ⟨by simp, by simp, by simp⟩
  simpa [stepDirectory] using ⟨hfirst, plain_of_idPattern h, hlast⟩

theorem splitOn_objectKey (step : UInt64) (h : idPattern run = true) :
    (objectKey run step value).toList.splitOn '/' =
      stepDirectory run step ++ value.toList.splitOn '/' := by
  have hfirst : "checkpoints/".toList = "checkpoints".toList ++ ['/'] := by decide
  rw [toList_objectKey, hfirst, List.append_assoc, List.singleton_append,
    List.splitOn_append_cons_self_of_not_mem (by decide),
    List.splitOn_append_cons_self_of_not_mem (not_slash_of_idPattern h),
    List.splitOn_append_cons_self_of_not_mem (not_slash_stepText step)]
  rfl

/-- `ValidStoragePath` refuses the paths that start with a parent component and
a slash, and so lets through the parent component alone. -/
theorem staysInside_iff (value : String) (h : validStoragePath value = true) :
    StaysInside value ↔ value ≠ ".." := by
  constructor
  · rintro hs rfl
    exact (hs.plain ['.', '.'] (by decide)).parent rfl
  · intro hparent
    simp only [validStoragePath, Bool.and_eq_true, beq_iff_eq, bne_iff_ne, Bool.not_eq_true'] at h
    obtain ⟨⟨⟨⟨-, hslash⟩, hclean⟩, hdot⟩, hup⟩ := h
    have hhead : value.toList.head? ≠ some '/' := by
      intro hhead
      obtain ⟨rest, hrest⟩ := List.head?_eq_some_iff.mp hhead
      rw [hrest] at hslash
      exact absurd hslash (by simp [toList_slash])
    have hplain := plain_of_clean hclean hhead hdot hparent hup
    refine ⟨List.splitOn_ne_nil '/' _, hplain, ?_⟩
    intro run step hrun
    refine ⟨value.toList.splitOn '/', List.splitOn_ne_nil '/' _, ?_⟩
    rw [resolve, splitOn_objectKey step hrun, cleanComponents_plain]
    · simp
    · intro w hw
      obtain hw | hw := List.mem_append.mp hw
      · exact plain_stepDirectory step hrun w hw
      · exact hplain w hw

theorem staysInside_nested : StaysInside "tensors/w.bin" :=
  (staysInside_iff "tensors/w.bin" (by decide +kernel)).mpr (by decide)

/-- The accepted parent component leads to the directory of the run. -/
theorem parent_leaves_step : validStoragePath ".." = true ∧ ¬ StaysInside ".." ∧
    resolve (objectKey "run" 7 "..") = ["checkpoints".toList, "run".toList] := by
  refine ⟨by decide +kernel, ?_, by decide +kernel⟩
  intro h
  exact (h.plain ['.', '.'] (by decide)).parent rfl

end HeteroCluster.StoragePaths
