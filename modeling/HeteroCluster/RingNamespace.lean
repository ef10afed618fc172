import HeteroCluster.FilePaths
import HeteroCluster.TransactionOwners

namespace HeteroCluster.RingNamespace

open FailFast GoStrings CleanPaths DecimalText FilePaths
open CheckpointManifest (isAlnum)
open TransactionServer TransactionCreation TransactionOwners

/-- `validRingPath` of the quantization engine. How the host resolves links and
which files are regular are parameters. -/
def validRingPath (evalSymlinks : String → Except String String) (isRegular : String → Bool)
    (sharedRoot value : String) (job : UInt64) (rank : Int64) : Except String String := do
  let root ← evalSymlinks sharedRoot
  let path ← evalSymlinks value
  let outside := "ring path is outside the job/rank namespace"
  let want := "/" ++ toString job ++ "/" ++ toString rank.toInt ++ "/"
  match filepathRel root path with
  | none => throw outside
  | some relative =>
    refuse (relative = "." ∨ "../".toList.isPrefixOf relative.toList = true ∨
      contains ("/" ++ relative ++ "/") want = false) outside
    refuse (isRegular path = false) "ring path is not a regular file"
    return path

/-- The file of a stream, as `createTransaction` names it. -/
def ringFile (cfg : Config) (job : UInt64) (rank : Int) (id name : String) : String :=
  filepathJoin [filepathJoin (directory cfg job rank id), name ++ ".ring"]

/-- The file is there, with no symbolic link below the shared root. -/
structure Created (evalSymlinks : String → Except String String) (isRegular : String → Bool)
    (cfg : Config) (root : String) (job : UInt64) (rank : Int) (id name : String) : Prop where
  shared : evalSymlinks cfg.sharedRoot = .ok root
  rooted : isRooted root = true
  file : evalSymlinks (ringFile cfg job rank id name) =
    .ok (ringFile { cfg with sharedRoot := root } job rank id name)
  regular : isRegular (ringFile { cfg with sharedRoot := root } job rank id name) = true

def Numeral (w : List Char) : Prop := w ≠ [] ∧ ∀ c ∈ w, c.isDigit = true

/-- A UID that is no decimal numeral, as an element of a path. -/
structure Unnumbered (uid : String) : Prop where
  numeral : ∀ w ∈ uid.toList.splitOn '/', ¬ Numeral w
  parent : ['.', '.'] ∉ uid.toList.splitOn '/'

/-- A UID of one element, as Kubernetes gives them, only has to be no numeral. -/
theorem unnumbered_of_element {uid : String} (hslash : '/' ∉ uid.toList) (hup : uid ≠ "..")
    (hnumeral : ¬ Numeral uid.toList) : Unnumbered uid := by
  have hsplit : uid.toList.splitOn '/' = [uid.toList] := List.splitOn_eq_singleton hslash
  constructor
  · intro w hw
    rw [hsplit] at hw
    rwa [List.mem_singleton.mp hw]
  · intro hw
    rw [hsplit, List.mem_singleton] at hw
    exact hup (String.toList_inj.mp hw.symm)

structure Word (w : List Char) : Prop where
  slash : '/' ∉ w
  plain : Plain w

section Words

variable {w : List Char} {id name : String}

theorem Word.splitOn (h : Word w) : w.splitOn '/' = [w] := List.splitOn_eq_singleton h.slash

theorem Word.filter (h : Word w) : [w].filter isKept = [w] :=
  List.filter_cons_of_pos (decide_eq_true ⟨h.plain.some, h.plain.dot⟩)

theorem word_of_head {c : Char} {t : List Char} (hc : c ≠ '.') (hslash : '/' ∉ c :: t) :
    Word (c :: t) := by
  refine ⟨hslash, ⟨List.cons_ne_nil c t, ?_, ?_⟩⟩
  · rintro h
    exact hc (List.cons.inj h).1
  · rintro h
    exact hc (List.cons.inj h).1

theorem word_number (n : Int) : Word (toString n).toList := by
  obtain ⟨c, t, ht⟩ := List.exists_cons_of_ne_nil (toString_ne_nil n)
  have hdot := not_mem_toString (c := '.') (by decide) (by decide) n
  have hslash := not_mem_toString (c := '/') (by decide) (by decide) n
  rw [ht] at hdot hslash ⊢
  refine word_of_head ?_ hslash
  rintro rfl
  exact hdot List.mem_cons_self

theorem word_id (h : transactionPattern id = true) : Word id.toList := by
  simp only [transactionPattern, Bool.and_eq_true, beq_iff_eq, List.all_eq_true] at h
  obtain ⟨c, t, ht⟩ := List.exists_cons_of_length_pos (by omega : 0 < id.toList.length)
  rw [ht] at h ⊢
  refine word_of_head ?_ ?_
  · rintro rfl
    exact absurd (h.2 _ List.mem_cons_self) (by decide)
  · intro hc
    exact absurd (h.2 _ hc) (by decide)

theorem word_ring (h : streamPattern name = true) : Word (name ++ ".ring").toList := by
  rw [String.toList_append]
  unfold streamPattern hasForm at h
  split at h
  · cases h
  next c t ht =>
    simp only [Bool.and_eq_true, List.all_eq_true] at h
    obtain ⟨⟨hc, hall⟩, -⟩ := h
    rw [ht, List.cons_append]
    refine word_of_head ?_ ?_
    · rintro rfl
      exact absurd hc (by decide)
    · intro hslash
      rw [List.mem_cons, List.mem_append] at hslash
      obtain rfl | hslash | hslash := hslash
      · exact absurd hc (by decide)
      · exact absurd (hall _ hslash) (by decide)
      · exact absurd hslash (by decide)

end Words

section Layout

variable {cfg : Config} {job job' : UInt64} {rank : Int64} {rank' : Int} {id name root uid : String}

/-- The elements of the path of a ring, below the shared root. -/
def layout (uid : String) (job : UInt64) (rank : Int) (id name : String) : List (List Char) :=
  (uid.toList.splitOn '/').filter isKept ++
    [(toString job).toList, (toString rank).toList, id.toList, (name ++ ".ring").toList]

theorem word_job (job : UInt64) : Word (toString job).toList := word_number job.toNat

theorem layout_words (huid : ['.', '.'] ∉ uid.toList.splitOn '/')
    (hid : transactionPattern id = true) (hname : streamPattern name = true) :
    ∀ w ∈ layout uid job rank' id name, Word w := by
  rw [layout, List.forall_mem_append]
  constructor
  · intro w hw
    obtain ⟨hmem, hkept⟩ := List.mem_filter.mp hw
    obtain ⟨hsome, hdot⟩ := of_decide_eq_true hkept
    refine ⟨?_, ⟨hsome, hdot, ?_⟩⟩
    · intro hc
      simpa using not_of_mem_splitOnP hmem '/' hc
    · rintro rfl
      exact huid hmem
  · simp only [List.forall_mem_cons]
    exact ⟨word_job job, word_number rank', word_id hid, word_ring hname, by simp⟩

theorem resolve_ringFile (hroot : isRooted cfg.sharedRoot = true)
    (huid : ['.', '.'] ∉ cfg.clusterUID.toList.splitOn '/') (hid : transactionPattern id = true)
    (hname : streamPattern name = true) : resolve (ringFile cfg job rank' id name) =
      resolve cfg.sharedRoot ++ layout cfg.clusterUID job rank' id name := by
  have hword : ∀ {w : List Char}, Word w → ['.', '.'] ∉ w.splitOn '/' := by
    intro w hw hmem
    rw [hw.splitOn, List.mem_singleton] at hmem
    exact hw.plain.parent hmem.symm
  have hdir := isRooted_filepathJoin hroot [cfg.clusterUID, toString job, toString rank', id]
  rw [ringFile, directory, resolve_filepathJoin hdir, resolve_filepathJoin hroot]
  · simp only [List.flatMap_cons, List.flatMap_nil, (word_job job).splitOn,
      (word_number rank').splitOn, (word_id hid).splitOn, (word_ring hname).splitOn,
      List.append_nil, List.filter_append, layout, List.append_assoc, (word_job job).filter,
      (word_number rank').filter, (word_id hid).filter, (word_ring hname).filter]
    rfl
  · simp only [List.forall_mem_cons]
    exact ⟨huid, hword (word_job job), hword (word_number rank'), hword (word_id hid), by simp⟩
  · simp only [List.forall_mem_cons]
    exact ⟨hword (word_ring hname), by simp⟩

theorem filepathRel_ringFile (hroot : isRooted cfg.sharedRoot = true)
    (huid : ['.', '.'] ∉ cfg.clusterUID.toList.splitOn '/') (hid : transactionPattern id = true)
    (hname : streamPattern name = true) :
    filepathRel cfg.sharedRoot (ringFile cfg job rank' id name) =
      some (String.ofList (List.intercalate ['/'] (layout cfg.clusterUID job rank' id name))) := by
  have hfile : isRooted (ringFile cfg job rank' id name) = true :=
    isRooted_filepathJoin (isRooted_filepathJoin hroot _) _
  exact filepathRel_below hroot hfile (resolve_ringFile hroot huid hid hname) (by simp [layout])

theorem numeral_job (job : UInt64) : Numeral (toString job).toList :=
  ⟨(word_job job).plain.some, fun _ hc => isDigit_of_mem_toString (n := job.toNat) hc⟩

theorem length_job (job : UInt64) : (toString job).toList.length < 32 := by
  have hlen := Nat.repr_length job.toNat 20 (by decide) (by have := job.toNat_lt; omega)
  have heq : (toString job).toList.length = (Nat.repr job.toNat).length := String.length_toList
  omega

theorem length_rank (rank : Int64) : (toString rank.toInt).toList.length < 32 := by
  have hlow := rank.le_toInt
  have hhigh := rank.toInt_lt
  cases h : rank.toInt with
  | ofNat n =>
    rw [h, Int.ofNat_eq_natCast] at hhigh
    have hlen := Nat.repr_length n 20 (by decide) (by omega)
    have heq : (toString (Int.ofNat n)).toList.length = (Nat.repr n).length := String.length_toList
    omega
  | negSucc n =>
    rw [h] at hlow
    have hlen := Nat.repr_length (n + 1) 20 (by decide) (by omega)
    have heq : (toString (n + 1)).toList.length = (Nat.repr (n + 1)).length := String.length_toList
    rw [toList_negSucc, List.length_cons]
    omega

theorem toString_job_inj : (toString job).toList = (toString job').toList ↔ job = job' := by
  constructor
  · intro h
    exact UInt64.toNat_inj.mp (Nat.repr_inj.mp (String.toList_inj.mp h))
  · rintro rfl
    rfl

theorem toString_rank_inj {a b : Int} : (toString a).toList = (toString b).toList ↔ a = b := by
  constructor
  · intro h
    exact Int.repr_inj.mp (String.toList_inj.mp h)
  · rintro rfl
    rfl

/-- Of all adjacent elements only the job and the rank of the path are a job and a
rank. -/
theorem infix_layout_iff (huid : ∀ w ∈ uid.toList.splitOn '/', ¬ Numeral w)
    (hid : transactionPattern id = true) :
    [(toString job).toList, (toString rank.toInt).toList] <:+: layout uid job' rank' id name ↔
      job = job' ∧ rank.toInt = rank' := by
  have hlen : id.toList.length = 32 := by
    simp only [transactionPattern, Bool.and_eq_true, beq_iff_eq] at hid
    exact hid.1
  have hjob := length_job job
  have hrank := length_rank rank
  constructor
  · rintro ⟨front, back, h⟩
    rw [layout, List.append_assoc] at h
    obtain ⟨more, hmore, hrest⟩ | ⟨more, -, hrest⟩ := List.append_eq_append_iff.mp h
    · cases more with
      | nil =>
        simp only [List.nil_append, List.cons_append, List.cons.injEq] at hrest
        exact ⟨toString_job_inj.mp hrest.1, toString_rank_inj.mp hrest.2.1⟩
      | cons w more =>
        -- the job would be an element of the UID
        simp only [List.cons_append, List.cons.injEq] at hrest
        have hmem : (toString job).toList ∈ (uid.toList.splitOn '/').filter isKept := by
          rw [hmore, hrest.1]
          simp
        exact absurd (numeral_job job) (huid _ (List.mem_filter.mp hmem).1)
    · -- an element after the job cannot be a job or a rank, as it is too long
      obtain _ | ⟨_, _ | ⟨_, more⟩⟩ := more <;>
        simp only [List.nil_append, List.cons_append, List.cons.injEq] at hrest
      · exact ⟨toString_job_inj.mp hrest.1.symm, toString_rank_inj.mp hrest.2.1.symm⟩
      · rw [hrest.2.2.1] at hlen
        omega
      · cases more with
        | nil =>
          simp only [List.nil_append, List.cons.injEq] at hrest
          rw [hrest.2.2.1] at hlen
          omega
        | cons _ more =>
          have hcount := congrArg List.length hrest.2.2
          simp only [List.length_cons, List.length_append, List.length_nil] at hcount
          omega
  · rintro ⟨rfl, rfl⟩
    exact ⟨_, _, List.append_assoc _ _ _⟩

theorem inside_of_words {words : List (List Char)} (hwords : ∀ w ∈ words, Word w)
    (hlen : 1 < words.length) :
    String.ofList (List.intercalate ['/'] words) ≠ "." ∧
      "../".toList.isPrefixOf (String.ofList (List.intercalate ['/'] words)).toList = false := by
  have hne : words ≠ [] := List.ne_nil_of_length_pos (by omega)
  have hsplit := List.splitOn_intercalate '/' (fun w hw => (hwords w hw).slash) hne
  constructor
  · intro h
    have htext := congrArg String.toList h
    rw [String.toList_ofList] at htext
    rw [htext] at hsplit
    have hone : words = [['.']] := hsplit.symm
    simp [hone] at hlen
  · rw [← Bool.not_eq_true]
    intro h
    have htext : (String.ofList (List.intercalate ['/'] words)).toList = _ := String.toList_ofList
    rw [htext] at h
    obtain ⟨rest, hrest⟩ := List.isPrefixOf_iff_prefix.mp h
    have hup := splitOn_append_cons ['.', '.'] rest
    have hmem : ['.', '.'] ∈ words := by
      rw [← hsplit, ← hrest]
      change _ ∈ (['.', '.'] ++ '/' :: rest).splitOn '/'
      rw [hup]
      exact List.mem_append_left _ (by decide)
    exact (hwords _ hmem).plain.parent rfl

end Layout

section Isolation

variable {evalSymlinks : String → Except String String} {isRegular : String → Bool} {cfg : Config}
  {job job' : UInt64} {rank : Int64} {rank' : Int} {id name root : String}

theorem validRingPath_eq_ok {sharedRoot value path : String} :
    validRingPath evalSymlinks isRegular sharedRoot value job rank = .ok path ↔
      ∃ root relative, evalSymlinks sharedRoot = .ok root ∧ evalSymlinks value = .ok path ∧
        filepathRel root path = some relative ∧ relative ≠ "." ∧
        "../".toList.isPrefixOf relative.toList = false ∧
        contains ("/" ++ relative ++ "/")
          ("/" ++ toString job ++ "/" ++ toString rank.toInt ++ "/") = true ∧
        isRegular path = true := by
  simp only [validRingPath, bind_eq_ok]
  constructor
  · rintro ⟨root, hroot, file, hfile, h⟩
    split at h
    · exact absurd h throw_ne_ok
    next relative hrel =>
      simp only [bind_eq_ok, exists_unit, refuse_eq_ok, pure_eq_ok, not_or, Bool.not_eq_false,
        Bool.not_eq_true] at h
      obtain ⟨⟨hdot, hup, hcontains⟩, hregular, rfl⟩ := h
      exact ⟨root, relative, hroot, hfile, hrel, hdot, hup, hcontains, hregular⟩
  · rintro ⟨root, relative, hroot, hfile, hrel, hdot, hup, hcontains, hregular⟩
    refine ⟨root, hroot, path, hfile, ?_⟩
    simp only [hrel, bind_eq_ok, exists_unit, refuse_eq_ok, pure_eq_ok, not_or, Bool.not_eq_false,
      Bool.not_eq_true, and_true]
    exact ⟨⟨hdot, hup, hcontains⟩, hregular⟩

/-- A ring is open to the job and the rank that it was created for, and to no
other. -/
theorem validRingPath_iff (h : Created evalSymlinks isRegular cfg root job' rank' id name)
    (huid : Unnumbered cfg.clusterUID) (hid : transactionPattern id = true)
    (hname : streamPattern name = true) :
    (∃ path, validRingPath evalSymlinks isRegular cfg.sharedRoot
        (ringFile cfg job' rank' id name) job rank = .ok path) ↔
      job = job' ∧ rank.toInt = rank' := by
  let cfg' : Config := { cfg with sharedRoot := root }
  have hrel : filepathRel root (ringFile cfg' job' rank' id name) = some (String.ofList
      (List.intercalate ['/'] (layout cfg.clusterUID job' rank' id name))) :=
    filepathRel_ringFile h.rooted huid.parent hid hname
  have hwords : ∀ w ∈ layout cfg.clusterUID job' rank' id name, Word w :=
    layout_words huid.parent hid hname
  have hpair : contains _ _ = true ↔ [(toString job).toList, (toString rank.toInt).toList] <:+:
      layout cfg.clusterUID job' rank' id name :=
    contains_pair_iff (by simp [layout]) (fun w hw => (hwords w hw).slash) (word_job job).slash
      (word_number rank.toInt).slash
  rw [infix_layout_iff huid.numeral hid] at hpair
  rw [← hpair]
  constructor
  · rintro ⟨path, hpath⟩
    obtain ⟨root', relative, hroot, hfile, hrelative, -, -, hcontains, -⟩ :=
      validRingPath_eq_ok.mp hpath
    obtain rfl := Except.ok.inj (hroot.symm.trans h.shared)
    obtain rfl := Except.ok.inj (hfile.symm.trans h.file)
    obtain rfl := Option.some.inj (hrelative.symm.trans hrel)
    exact hcontains
  · intro hcontains
    obtain ⟨hdot, hup⟩ := inside_of_words hwords (by simp [layout])
    exact ⟨_, validRingPath_eq_ok.mpr
      ⟨root, _, h.shared, h.file, hrel, hdot, hup, hcontains, h.regular⟩⟩

end Isolation

/-- The ring of rank 3 of job 7 is open to it, and closed to rank 4. -/
theorem validRingPath_sample :
    (∃ path, validRingPath .ok (fun _ => true) defaultConfig.sharedRoot
      (ringFile defaultConfig 7 3 sampleID "weights") 7 3 = .ok path) ∧
    ¬ ∃ path, validRingPath .ok (fun _ => true) defaultConfig.sharedRoot
      (ringFile defaultConfig 7 3 sampleID "weights") 7 4 = .ok path := by
  have hcreated : Created .ok (fun _ => true) defaultConfig defaultConfig.sharedRoot 7 3 sampleID
      "weights" := ⟨rfl, by decide, rfl, rfl⟩
  have hnumeral : ¬ Numeral "cluster".toList := by
    rintro ⟨-, hdigits⟩
    exact absurd (hdigits 'c' (by decide)) (by decide)
  have huid : Unnumbered defaultConfig.clusterUID :=
    unnumbered_of_element (by decide) (by decide) hnumeral
  have hid : transactionPattern sampleID = true := by decide +kernel
  have hname : streamPattern "weights" = true := by decide
  constructor
  · exact (validRingPath_iff hcreated huid hid hname).mpr ⟨rfl, by decide⟩
  · intro h
    exact absurd ((validRingPath_iff hcreated huid hid hname).mp h).2 (by decide)

end HeteroCluster.RingNamespace
