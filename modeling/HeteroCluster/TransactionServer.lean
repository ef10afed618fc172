import HeteroCluster.CheckpointManifest
import HeteroCluster.Interleaving
import HeteroCluster.RingModel
import Mathlib.Data.List.AList

namespace HeteroCluster.TransactionServer

open GoStrings CallProgram Interleaving RingModel CheckpointManifest

def defaultSlots : Nat := 8

/-- A path by its components. Those that the server adds to its root are
numbers, identifiers and stream names, which `filepath.Join` leaves alone. -/
abbrev Path := List String

/-- What `loadConfig` accepts. -/
structure Config where
  sharedRoot : String
  clusterUID : String
  budget : UInt64
  budget_ge : 16 <<< 20 ≤ budget.toNat
  budget_le : budget.toNat ≤ 16 <<< 30

structure Transaction where
  jobID : UInt64
  rank : Int
  dir : Path
  streams : List (String × Path)

structure Maps where
  transactions : AList (fun _ : String => Transaction)
  active : AList (fun _ : String => String)

structure StreamRequest where
  name : String
  byteLength : UInt64

structure CreateRequest where
  id : String
  job : UInt64
  rank : Int
  streams : List StreamRequest

structure CreateResponse where
  transaction : String
  streams : List (String × Path)
  slots : Nat
  slotBytes : UInt64

/-- The file operations. A ring file is created, extended to its size and
mapped; any of the three may fail. -/
inductive FileCall where
  | mkdirAll (dir : Path)
  | newRing (path : Path) (size : Nat)
  | removeAll (dir : Path)

abbrev FileReply : FileCall → Type := fun _ => Option String

abbrev FileProgram := Program FileReply
abbrev FileEvent := Event FileReply
abbrev FileLog := Log FileReply

abbrev ask (c : FileCall) : FileProgram (Option String) := Program.perform c

def streamPattern : String → Bool :=
  hasForm isAlnum (fun c => isAlnum c || c == '.' || c == '_' || c == '-') 127

/-- `ring.Initialize`. -/
def initializeFile (path : Path) (slots : Nat) (slotSize total : UInt64) :
    FileProgram (Option String) :=
  match initializeRing slots slotSize.toNat total.toNat with
  | .error e => return some e
  | .ok ring => ask (.newRing path (headerSize + ring.slots * ring.slotSize))

def activeKey (job : UInt64) (rank : Int) : String := toString job ++ "/" ++ toString rank

def directory (cfg : Config) (job : UInt64) (rank : Int) (id : String) : Path :=
  [cfg.sharedRoot, cfg.clusterUID, toString job, toString rank, id]

def ringPath (dir : Path) (name : String) : Path := dir ++ [name ++ ".ring"]

def perStream (cfg : Config) (streams : Nat) : UInt64 := cfg.budget / UInt64.ofNat streams

/-- The size of a slot when the budget is shared by the streams of a request. -/
def slotBytes (cfg : Config) (streams : Nat) : UInt64 :=
  let size := (perStream cfg streams - UInt64.ofNat headerSize) / UInt64.ofNat defaultSlots
  let size := if size > UInt64.ofNat maxSlotSize then UInt64.ofNat maxSlotSize else size
  size - size % 4096

/-- The error paths after the directory is made: they remove it, and do not look
at what comes of that. -/
def abandon (dir : Path) (e : String) : FileProgram (Except String (List (String × Path))) := do
  let _ ← ask (.removeAll dir)
  return .error e

def openStreams (dir : Path) (slotSize : UInt64) :
    List StreamRequest → List (String × Path) → FileProgram (Except String (List (String × Path)))
  | [], streams => return .ok streams
  | stream :: rest, streams =>
    if streamPattern stream.name = false ∨ stream.byteLength = 0 ∨
        stream.byteLength.toNat > maxStreamLength then abandon dir "invalid stream name or length"
    else if (streams.lookup stream.name).isSome then abandon dir "duplicate stream name"
    else do
      let path := ringPath dir stream.name
      match ← initializeFile path defaultSlots slotSize stream.byteLength with
      | some e => abandon dir e
      | none => openStreams dir slotSize rest ((stream.name, path) :: streams)

/-- `createTransaction`, which holds the mutex from its first look at the maps
to its end. -/
def createTransaction (cfg : Config) (s : Maps) (request : CreateRequest) :
    FileProgram (Except String CreateResponse × Maps) :=
  if request.streams.length < 1 ∨ request.streams.length > 2 then
    return (.error "a transaction requires one or two streams", s)
  else if (s.transactions.lookup request.id).isSome then
    return (.error "transaction already exists", s)
  else
    let key := activeKey request.job request.rank
    let current := (s.active.lookup key).getD ""
    if current ≠ "" then
      return (.error ("transaction " ++ current ++ " is already active for this rank"), s)
    else if (perStream cfg request.streams.length).toNat ≤
        headerSize + defaultSlots * minSlotSize then
      return (.error "shared-memory budget is too small", s)
    else do
      let size := slotBytes cfg request.streams.length
      let dir := directory cfg request.job request.rank request.id
      match ← ask (.mkdirAll dir) with
      | some e => return (.error e, s)
      | none =>
        match ← openStreams dir size request.streams [] with
        | .error e => return (.error e, s)
        | .ok streams =>
          let txn : Transaction := ⟨request.job, request.rank, dir, streams⟩
          return (.ok ⟨request.id, streams, defaultSlots, size⟩,
            ⟨s.transactions.insert request.id txn, s.active.insert key request.id⟩)

/-- The part of `deleteTransaction` under the mutex. What it returns is removed
afterwards. -/
def deleteTransaction (s : Maps) (id : String) (job : UInt64) (rank : Int) :
    Except String (Path × Maps) :=
  match s.transactions.lookup id with
  | none => .error "transaction is not owned by this job and rank"
  | some txn =>
    if txn.jobID ≠ job ∨ txn.rank ≠ rank then
      .error "transaction is not owned by this job and rank"
    else .ok (txn.dir, ⟨s.transactions.erase id, s.active.erase (activeKey job rank)⟩)

section Files

inductive Entry where
  | directory
  | file (size : Nat)
  deriving DecidableEq

abbrev FileSystem := Path → Option Entry

/-- Some of what is at the path or below it is gone. -/
def Removed (dir : Path) (fs fs' : FileSystem) : Prop :=
  ∀ path, fs' path = fs path ∨ dir <+: path ∧ fs' path = none

/-- What a file operation may do. An operation that fails may have done a part
of its work. -/
def Serves (fs : FileSystem) : FileEvent → FileSystem → Prop
  | ⟨.mkdirAll dir, none⟩, fs' => fs' dir = some .directory ∧
      ∀ path, fs' path = fs path ∨ path <+: dir ∧ fs path = none ∧ fs' path = some .directory
  | ⟨.mkdirAll dir, some _⟩, fs' =>
      ∀ path, fs' path = fs path ∨ path <+: dir ∧ fs path = none ∧ fs' path = some .directory
  | ⟨.newRing path size, none⟩, fs' => fs path.dropLast = some .directory ∧ fs path = none ∧
      fs' = Function.update fs path (some (.file size))
  | ⟨.newRing path _, some _⟩, fs' =>
      fs' = fs ∨ fs path = none ∧ ∃ size, fs' = Function.update fs path (some (.file size))
  | ⟨.removeAll dir, none⟩, fs' => Removed dir fs fs' ∧ ∀ path, dir <+: path → fs' path = none
  | ⟨.removeAll dir, some _⟩, fs' => Removed dir fs fs'

end Files

section System

abbrev Creation := Thread FileReply (Except String CreateResponse × Maps)

/-- The server with its files: the creation that holds the mutex, and the
directories that deletions are removing without it. -/
structure System where
  maps : Maps
  fs : FileSystem
  busy : Option Creation
  removals : List Path

inductive Action where
  | create (request : CreateRequest)
  | call (e : FileEvent)
  | finish
  | delete (id : String) (job : UInt64) (rank : Int)
  | remove (dir : Path)
  | removed (dir : Path)

/-- A request that waits for the mutex and a deletion that is refused change
nothing, so that only the others are actions. -/
inductive Step (cfg : Config) : System → Action → System → Prop
  | create {s : System} (request : CreateRequest) (h : s.busy = none) :
      Step cfg s (.create request)
        { s with busy := some ⟨createTransaction cfg s.maps request, []⟩ }
  | call {s : System} {i : FileCall} {next : FileReply i → FileProgram _} {log : FileLog}
      {fs' : FileSystem} (r : FileReply i) (h : s.busy = some ⟨.call i next, log⟩)
      (hs : Serves s.fs ⟨i, r⟩ fs') :
      Step cfg s (.call ⟨i, r⟩)
        { s with fs := fs', busy := some ⟨next r, log ++ [⟨i, r⟩]⟩ }
  | finish {s : System} {result : Except String CreateResponse} {maps : Maps} {log : FileLog}
      (h : s.busy = some ⟨.done (result, maps), log⟩) :
      Step cfg s .finish { s with maps := maps, busy := none }
  | delete {s : System} {id : String} {job : UInt64} {rank : Int} {dir : Path} {maps : Maps}
      (h : s.busy = none) (hd : deleteTransaction s.maps id job rank = .ok (dir, maps)) :
      Step cfg s (.delete id job rank) { s with maps := maps, removals := dir :: s.removals }
  | remove {s : System} {dir : Path} {fs' : FileSystem} (h : dir ∈ s.removals)
      (hr : Removed dir s.fs fs') : Step cfg s (.remove dir) { s with fs := fs' }
  | removed {s : System} {dir : Path} (h : dir ∈ s.removals) :
      Step cfg s (.removed dir) { s with removals := s.removals.erase dir }

def System.initial (fs : FileSystem) : System := ⟨⟨∅, ∅⟩, fs, none, []⟩

inductive Reaches (cfg : Config) (allowed : System → Action → Prop) : System → Prop
  | start (fs : FileSystem) : Reaches cfg allowed (System.initial fs)
  | step {s s' : System} {a : Action} (h : Reaches cfg allowed s) (ha : allowed s a)
      (hs : Step cfg s a s') : Reaches cfg allowed s'

end System

end HeteroCluster.TransactionServer
