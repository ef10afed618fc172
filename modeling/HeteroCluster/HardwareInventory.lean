import HeteroCluster.GoStrings
import Mathlib.Data.Int.Basic

namespace HeteroCluster.HardwareInventory

open GoStrings LetterCase

structure GPU where
  uuid : String
  model : String
  pci : String
  deriving DecidableEq, Repr

structure OpenTPU where
  profile : String
  count : Int
  matrixSize : Int
  cpuCores : Int
  memoryBytes : Int
  sharedMemory : Int
  deriving DecidableEq, Repr

structure Cell where
  numa : Int
  cpus : Int
  memoryUnits : Int
  memoryUnitBytes : Int
  gpus : List GPU
  openTPU : List OpenTPU
  deriving DecidableEq, Repr

structure Inventory where
  version : Int
  bootID : String
  cells : List Cell
  deriving DecidableEq, Repr

def normalizeGPU (value : String) : String :=
  let text := ["nvidia", "geforce", "laptop", "gpu"].foldl (fun s word => replaceAll s word " ")
    (toLower value)
  String.intercalate "_" (fieldsFunc isPunctuation text)

theorem foldl_replaceAll_append {before after : List Char} (hb : ∀ c ∈ before, isSpace c = true)
    (ha : ∀ c ∈ after, isSpace c = true) (words : List String)
    (hw : ∀ word ∈ words, word.toList ≠ [] ∧ word.toList.any isSpace = false) (l : List Char) :
    (words.foldl (fun s word => replaceAll s word " ") (String.ofList (before ++ l ++ after))).toList =
      before ++ (words.foldl (fun s word => replaceAll s word " ") (String.ofList l)).toList ++
        after := by
  induction words generalizing l with
  | nil => simp
  | cons word words ih =>
    obtain ⟨hne, hword⟩ := hw word List.mem_cons_self
    have hout : ∀ c, isSpace c = true → c ∉ word.toList := by
      intro c hc hmem
      exact List.any_eq_false.mp hword c hmem hc
    have hstep := replaceAll_append " " (l := l) (fun c hc => hout c (hb c hc))
      (fun c hc => hout c (ha c hc)) hne
    rw [List.foldl_cons, List.foldl_cons, ← String.ofList_toList (s := replaceAll _ _ _), hstep,
      ih (fun w hmem => hw w (List.mem_cons_of_mem word hmem)), String.ofList_toList]

theorem normalizeGPU_trimSpace (s : String) : normalizeGPU (trimSpace s) = normalizeGPU s := by
  obtain ⟨before, after, hs, hb, ha⟩ := trimSpace_spec s
  have hlower : ∀ l : List Char, (∀ c ∈ l, isSpace c = true) → l.map lowerChar = l := by
    intro l hl
    exact (List.map_congr_left (fun c hc => isSpace_lowerChar (hl c hc))).trans (List.map_id' l)
  have htext : toLower s = String.ofList (before ++ (toLower (trimSpace s)).toList ++ after) := by
    rw [toLower, hs, List.map_append, List.map_append, hlower before hb, hlower after ha, toLower,
      String.toList_ofList]
  have hfold := foldl_replaceAll_append hb ha ["nvidia", "geforce", "laptop", "gpu"]
    (by decide) (toLower (trimSpace s)).toList
  rw [← htext, String.ofList_toList] at hfold
  simp only [normalizeGPU]
  rw [← String.ofList_toList (s := List.foldl _ (toLower s) _), hfold,
    fieldsFunc_append (fun c hc => isSpace_punctuation (hb c hc))
      (fun c hc => isSpace_punctuation (ha c hc)), String.ofList_toList]

end HeteroCluster.HardwareInventory
