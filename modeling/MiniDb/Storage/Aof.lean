/-
  The append-only file (`storage/aof.py`): its entries, and the entries of a compacted file.

  This module keeps the file as its list of entries; `Storage.AofText` says how they are
  written as lines and read back, and that nothing is lost between the two
  (`AofText.replay_render`).

  Not modelled: the write buffer and the fsync thread (an appended line counts as written).
-/
import MiniDb.Storage.KvStore

namespace MiniDb

open Lib

inductive AofCommand where
  | set
  | delete
  | expire
  deriving DecidableEq

/-- The command's text in a line. -/
def AofCommand.text : AofCommand → String
  | .set => "SET"
  | .delete => "DELETE"
  | .expire => "EXPIRE"

structure AofEntry where
  timestamp : Time
  command : AofCommand
  key : String
  value : Json := .null
  ttl : Option Int := none
  expiresAt : Option Time := none
  version : Int := 1
  createdAt : Option Time := none
  coordinatorId : String := ""

/-- The manager's counters. -/
structure AofPersistence where
  entriesSinceCompact : Nat := 0
  compactThreshold : Nat := 10000

def AofPersistence.shouldCompact (a : AofPersistence) : Bool :=
  a.compactThreshold ≤ a.entriesSinceCompact

/-- The line that `compact` writes for an item of the captured state. -/
def compactEntry (p : String × KVStore.Item) : AofEntry :=
  { timestamp := p.2.updatedAt, command := .set, key := p.1, value := p.2.value, ttl := none,
    expiresAt := p.2.expiresAt, version := p.2.version, createdAt := some p.2.createdAt,
    coordinatorId := p.2.coordinatorId }

/-- The entries of a compacted file: the captured state, expired items left out. -/
def compactEntries (currentState : Dict String KVStore.Item) (now : Time) : List AofEntry :=
  (currentState.filter fun p => !expiredBefore p.2.expiresAt now).items.map compactEntry

/-- Of the entries of one key a compacted file has the captured item's, if it is unexpired. -/
theorem compactEntries_filter_key (currentState : Dict String KVStore.Item) (now : Time)
    (k : String) :
    (compactEntries currentState now).filter (fun e => e.key = k) =
      (((currentState.get? k).filter fun i => !expiredBefore i.expiresAt now).map
        fun i => compactEntry (k, i)).toList := by
  have hkey : ∀ p : String × KVStore.Item, (compactEntry p).key = p.1 := fun _ => rfl
  unfold compactEntries
  rw [List.filter_map]
  simp only [Function.comp_def, hkey]
  rw [Dict.filter_items_key, Dict.get?_filter]
  cases (currentState.get? k).filter fun i => !expiredBefore i.expiresAt now with
  | none => rfl
  | some i => rfl

end MiniDb
