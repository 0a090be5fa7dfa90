/-
  Snapshots (`storage/snapshot.py`) and the files of a node's data directory.

  `saveOps` is the sequence of file operations of `save`; `load` reads what they leave behind.
  The log's files are in the same directory, so that `compactOps` (`aof.py`, `compact`) is
  here too. Contents are kept as values: compression and the JSON text of a snapshot count as
  lossless, and so do the lines of a log (`AofText.replay_render`).
-/
import MiniDb.Lib.FileSystem
import MiniDb.Storage.Aof

namespace MiniDb

open Lib

inductive Path where
  | snapshot
  | snapshotTmp
  | snapshotBak
  | metadata
  | aof
  | aofTmp
  | aofBak
  deriving DecidableEq

inductive Content where
  | snapshot (data : Dict String KVStore.Item)
  | metadata (keyCount : Nat)
  | log (entries : List AofEntry)

abbrev DataDir := Directory Path Content

/-! ## File operations -/

/-- The file operations of `SnapshotPersistence.save`. -/
def saveOps (data : Dict String KVStore.Item) : List (FileOp Path Content) :=
  [ .create .snapshotTmp,
    .close .snapshotTmp (.snapshot data),
    .ifExists .snapshot (.ifExists .snapshotBak (.remove .snapshotBak)),
    .ifExists .snapshot (.rename .snapshot .snapshotBak),
    .rename .snapshotTmp .snapshot,
    .create .metadata,
    .close .metadata (.metadata data.items.length) ]

/-- The file operations of `AOFPersistence.compact`, before the log is reopened. -/
def compactOps (currentState : Dict String KVStore.Item) (now : Time) :
    List (FileOp Path Content) :=
  [ .create .aofTmp,
    .close .aofTmp (.log (compactEntries currentState now)),
    .ifExists .aofBak (.remove .aofBak),
    .ifExists .aof (.rename .aof .aofBak),
    .rename .aofTmp .aof ]

/-- `_open_file`: mode "a" creates a missing log and keeps a present one. -/
def openAof (d : DataDir) : DataDir :=
  match d .aof with
  | some _ => d
  | none => Function.update d .aof (some (.closed (.log [])))

theorem openAof_of_log {d : DataDir} {f : File Content} (h : d .aof = some f) : openAof d = d := by
  simp only [openAof, h]

/-- Append one entry to the open log. -/
def appendAof (d : DataDir) (e : AofEntry) : DataDir :=
  match d .aof with
  | some (.closed (.log es)) => Function.update d .aof (some (.closed (.log (es ++ [e]))))
  | _ => d

/-! ## Reading back -/

/-- The items of a snapshot file; `none` when it cannot be read. -/
def readSnapshot (f : Option (File Content)) : Option (Dict String KVStore.Item) :=
  match f with
  | some (.closed (.snapshot data)) => some data
  | _ => none

/-- `load`: an unreadable snapshot is replaced by the backup, a missing one is not; expired
    items are left out. -/
def load (d : DataDir) (now : Time) : Option (Dict String KVStore.Item) :=
  match d .snapshot with
  | none => none
  | some f =>
    let data := match readSnapshot (some f) with
      | some data => some data
      | none => readSnapshot (d .snapshotBak)
    data.map fun data => data.filter fun p => !expiredBefore p.2.expiresAt now

/-- The entries of the log. -/
def readAof (d : DataDir) : List AofEntry :=
  match d .aof with
  | some (.closed (.log es)) => es
  | _ => []

end MiniDb
