/-
  The two files of a snapshot: what `load` does with each content of them, and what a crash in
  the middle of `save` leaves for it.

  `load` calls itself after it has copied the backup over the snapshot. `loadCalls` is this
  recursion, with room on the interpreter's stack for so many calls; it counts the files read.
  It agrees with `load` (`loadCalls_result`), and ends after one fallback unless both files are
  there and damaged (`load_once_iff`): then each call copies one damaged file over the other and
  calls again, until the stack is full, and the error of that is caught with all others.

  `save` moves the snapshot away before it moves the new one in, and `load` does not look at the
  backup when there is no snapshot: `save_crash_iff`.
-/
import MiniDb.Storage.Snapshot
import Mathlib.Tactic.IntervalCases

namespace MiniDb.SnapshotFiles

open Lib

/-! ## The recursion of `load` -/

/-- `load` leaves out what has expired. -/
def unexpiredItems (data : Dict String KVStore.Item) (now : Time) : Dict String KVStore.Item :=
  data.filter fun p => !expiredBefore p.2.expiresAt now

/-- A call of `load`: its result (`none` is an exception), the files read, the copies of the
    backup, and the directory after it. -/
structure LoadRun where
  result : Option (Option (Dict String KVStore.Item))
  reads : Nat
  fallbacks : Nat
  dir : DataDir

/-- `load`, with room for `depth` calls; the call after these raises. -/
def loadCalls (now : Time) : Nat → DataDir → LoadRun
  | 0, d => ⟨none, 0, 0, d⟩
  | depth + 1, d =>
    match d .snapshot with
    | none => ⟨some none, 0, 0, d⟩
    | some f =>
      match readSnapshot (some f) with
      | some data => ⟨some (some (unexpiredItems data now)), 1, 0, d⟩
      | none =>
        match d .snapshotBak with
        | none => ⟨some none, 1, 0, d⟩
        | some b =>
          -- the copy reads the backup; what the inner call raises is caught
          let r := loadCalls now depth (Function.update d .snapshot (some b))
          ⟨some (r.result.getD none), r.reads + 2, r.fallbacks + 1, r.dir⟩

/-- The file is there and cannot be read. -/
def Damaged (f : Option (File Content)) : Prop := f ≠ none ∧ readSnapshot f = none

section

variable (now : Time) (depth : Nat) {d : DataDir}

theorem loadCalls_missing (h : d .snapshot = none) :
    loadCalls now (depth + 1) d = ⟨some none, 0, 0, d⟩ := by
  unfold loadCalls
  rw [h]

theorem loadCalls_readable {data : Dict String KVStore.Item}
    (h : readSnapshot (d .snapshot) = some data) :
    loadCalls now (depth + 1) d = ⟨some (some (unexpiredItems data now)), 1, 0, d⟩ := by
  cases hf : d .snapshot with
  | none =>
    rw [hf] at h
    cases h
  | some f =>
    rw [hf] at h
    unfold loadCalls
    rw [hf]
    simp only [h]

theorem loadCalls_no_backup (h : Damaged (d .snapshot)) (hbak : d .snapshotBak = none) :
    loadCalls now (depth + 1) d = ⟨some none, 1, 0, d⟩ := by
  obtain ⟨f, hf⟩ := Option.ne_none_iff_exists'.mp h.1
  have hread := h.2
  rw [hf] at hread
  unfold loadCalls
  rw [hf]
  simp only [hread, hbak]

theorem loadCalls_fallback (h : Damaged (d .snapshot)) {b : File Content}
    (hbak : d .snapshotBak = some b) :
    loadCalls now (depth + 1) d =
      ⟨some ((loadCalls now depth (Function.update d .snapshot (some b))).result.getD none),
        (loadCalls now depth (Function.update d .snapshot (some b))).reads + 2,
        (loadCalls now depth (Function.update d .snapshot (some b))).fallbacks + 1,
        (loadCalls now depth (Function.update d .snapshot (some b))).dir⟩ := by
  obtain ⟨f, hf⟩ := Option.ne_none_iff_exists'.mp h.1
  have hread := h.2
  rw [hf] at hread
  rw [loadCalls, hf]
  simp only [hread, hbak]

/-- Only the snapshot is damaged: one fallback. -/
theorem loadCalls_backup (h : Damaged (d .snapshot)) {data : Dict String KVStore.Item}
    (hbak : readSnapshot (d .snapshotBak) = some data) :
    loadCalls now (depth + 2) d =
      ⟨some (some (unexpiredItems data now)), 3, 1,
        Function.update d .snapshot (d .snapshotBak)⟩ := by
  obtain ⟨b, hb⟩ : ∃ b, d .snapshotBak = some b := by
    refine Option.ne_none_iff_exists'.mp fun hnone => ?_
    rw [hnone] at hbak
    cases hbak
  have hcopy : readSnapshot (Function.update d .snapshot (some b) .snapshot) = some data := by
    rw [Function.update_self, ← hb, hbak]
  rw [loadCalls_fallback now (depth + 1) h hb, loadCalls_readable now depth hcopy, hb]
  rfl

end

/-- Both files are damaged: as many fallbacks as the stack has room for. -/
theorem loadCalls_both_damaged (now : Time) {d : DataDir} (h : Damaged (d .snapshot))
    (hbak : Damaged (d .snapshotBak)) (depth : Nat) :
    (loadCalls now (depth + 1) d).result = some none ∧
      (loadCalls now depth d).reads = 2 * depth ∧ (loadCalls now depth d).fallbacks = depth := by
  obtain ⟨b, hb⟩ := Option.ne_none_iff_exists'.mp hbak.1
  rw [hb] at hbak
  induction depth generalizing d with
  | zero =>
    rw [loadCalls_fallback now 0 h hb]
    exact ⟨rfl, rfl, rfl⟩
  | succ depth ih =>
    have hcopy : Damaged (Function.update d .snapshot (some b) .snapshot) := by
      rwa [Function.update_self]
    obtain ⟨hresult, hreads, hfallbacks⟩ := ih hcopy
      (by rwa [Function.update_of_ne (show Path.snapshotBak ≠ Path.snapshot by decide)])
    rw [loadCalls_fallback now (depth + 1) h hb, loadCalls_fallback now depth h hb]
    simp only [hresult, hreads, hfallbacks]
    exact ⟨rfl, by omega, trivial⟩

theorem damaged_or (f : Option (File Content)) :
    f = none ∨ (∃ data, readSnapshot f = some data) ∨ Damaged f := by
  by_cases hf : f = none
  · exact .inl hf
  · cases hread : readSnapshot f with
    | none => exact .inr (.inr ⟨hf, hread⟩)
    | some data => exact .inr (.inl ⟨data, rfl⟩)

theorem load_missing {d : DataDir} (h : d .snapshot = none) (now : Time) : load d now = none := by
  rw [load, h]

theorem load_readable {d : DataDir} {data : Dict String KVStore.Item}
    (h : readSnapshot (d .snapshot) = some data) (now : Time) :
    load d now = some (unexpiredItems data now) := by
  cases hf : d .snapshot with
  | none =>
    rw [hf] at h
    cases h
  | some f =>
    rw [hf] at h
    rw [load, hf]
    simp only [h]
    rfl

theorem load_damaged {d : DataDir} (h : Damaged (d .snapshot)) (now : Time) :
    load d now = (readSnapshot (d .snapshotBak)).map (unexpiredItems · now) := by
  obtain ⟨f, hf⟩ := Option.ne_none_iff_exists'.mp h.1
  have hread := h.2
  rw [hf] at hread
  rw [load, hf]
  simp only [hread]
  rfl

/-- **The recursion refines `load`**, whatever is in the files. -/
theorem loadCalls_result (d : DataDir) (now : Time) (depth : Nat) :
    (loadCalls now (depth + 2) d).result = some (load d now) := by
  rcases damaged_or (d .snapshot) with h | ⟨data, h⟩ | h
  · rw [loadCalls_missing now (depth + 1) h, load_missing h]
  · rw [loadCalls_readable now (depth + 1) h, load_readable h]
  · rw [load_damaged h]
    rcases damaged_or (d .snapshotBak) with hbak | ⟨data, hbak⟩ | hbak
    · rw [loadCalls_no_backup now (depth + 1) h hbak, hbak]
      rfl
    · rw [loadCalls_backup now depth h hbak, hbak]
      rfl
    · rw [(loadCalls_both_damaged now h hbak (depth + 1)).1, hbak.2]
      rfl

/-! ## At most one fallback -/

/-- What a call of `load` owes: it returns after at most one fallback and three reads, with the
    backup's data if only the snapshot is damaged. -/
structure LoadOnce (d : DataDir) (now : Time) (depth : Nat) : Prop where
  ends : (loadCalls now depth d).result ≠ none
  once : (loadCalls now depth d).fallbacks ≤ 1
  bounded : (loadCalls now depth d).reads ≤ 3
  backup : ∀ data, Damaged (d .snapshot) → readSnapshot (d .snapshotBak) = some data →
    (loadCalls now depth d).result = some (some (unexpiredItems data now))

/-- **Exactly when one fallback is enough**: for every content of the two files, if and only if
    they are not both there and damaged. -/
theorem load_once_iff (d : DataDir) (now : Time) {depth : Nat} (hdepth : 2 ≤ depth) :
    LoadOnce d now depth ↔ ¬(Damaged (d .snapshot) ∧ Damaged (d .snapshotBak)) := by
  constructor
  · rintro h ⟨hmain, hbak⟩
    have honce := h.once
    rw [(loadCalls_both_damaged now hmain hbak depth).2.2] at honce
    omega
  · intro h
    obtain ⟨n, rfl⟩ : ∃ n, depth = n + 2 := ⟨depth - 2, by omega⟩
    have hends : (loadCalls now (n + 2) d).result ≠ none := by
      rw [loadCalls_result]
      exact Option.some_ne_none _
    -- the files read and the fallbacks, by what is in the two files
    have hcount : (loadCalls now (n + 2) d).fallbacks ≤ 1 ∧
        (loadCalls now (n + 2) d).reads ≤ 3 := by
      rcases damaged_or (d .snapshot) with hmain | ⟨data, hmain⟩ | hmain
      · rw [loadCalls_missing now (n + 1) hmain]
        exact ⟨Nat.zero_le 1, Nat.zero_le 3⟩
      · rw [loadCalls_readable now (n + 1) hmain]
        exact ⟨Nat.zero_le 1, show 1 ≤ 3 by decide⟩
      · rcases damaged_or (d .snapshotBak) with hbak | ⟨data, hbak⟩ | hbak
        · rw [loadCalls_no_backup now (n + 1) hmain hbak]
          exact ⟨Nat.zero_le 1, show 1 ≤ 3 by decide⟩
        · rw [loadCalls_backup now n hmain hbak]
          exact ⟨le_refl 1, le_refl 3⟩
        · exact absurd ⟨hmain, hbak⟩ h
    refine ⟨hends, hcount.1, hcount.2, fun data hmain hbak => ?_⟩
    rw [loadCalls_backup now n hmain hbak]

/-- A data directory with these two files. -/
def twoFiles (main bak : Option (File Content)) : DataDir
  | .snapshot => main
  | .snapshotBak => bak
  | _ => none

theorem load_once_iff_sample :
    2 ≤ 1000 ∧ (LoadOnce (twoFiles (some .writing) (some (.closed (.snapshot Dict.empty)))) 1 1000 ↔
      ¬(Damaged (some .writing) ∧ Damaged (some (.closed (.snapshot Dict.empty))))) :=
  ⟨by decide, load_once_iff (twoFiles (some .writing) (some (.closed (.snapshot Dict.empty)))) 1
    (by decide)⟩

/-- With both files cut short, a stack of a thousand calls takes a thousand fallbacks. -/
theorem damaged_backup_recurses :
    Damaged (some .writing) ∧
      (loadCalls 1 1000 (twoFiles (some .writing) (some .writing))).fallbacks = 1000 ∧
      (loadCalls 1 1000 (twoFiles (some .writing) (some .writing))).reads = 2000 ∧
      ¬LoadOnce (twoFiles (some .writing) (some .writing)) 1 1000 := by
  have hdamaged : Damaged (some .writing) := ⟨by simp, rfl⟩
  have h := loadCalls_both_damaged 1 (d := twoFiles (some .writing) (some .writing)) hdamaged
    hdamaged 1000
  refine ⟨hdamaged, h.2.2, h.2.1, fun hright => ?_⟩
  have honce := hright.once
  rw [h.2.2] at honce
  omega

/-! ## A crash in the middle of `save` -/

/-- What the directory held of the earlier snapshot: the snapshot's data, or the backup's if the
    snapshot is missing or damaged. -/
def earlier (d : DataDir) : Option (Dict String KVStore.Item) :=
  (readSnapshot (d .snapshot)).or (readSnapshot (d .snapshotBak))

/-- The snapshot file after the first `k` operations of `save`. -/
def mainAfter (d : DataDir) (data : Dict String KVStore.Item) (k : Nat) : Option (File Content) :=
  if k < 4 then d .snapshot
  else if k < 5 then none
  else some (.closed (.snapshot data))

/-- The backup after the first `k` operations of `save`. -/
def backupAfter (d : DataDir) (k : Nat) : Option (File Content) :=
  if d .snapshot = none ∨ k < 3 then d .snapshotBak
  else if k < 4 then none
  else d .snapshot

/-- None of the operations of `save` fails, and this is what they leave of the two files. -/
theorem performAll_saveOps (d : DataDir) (data : Dict String KVStore.Item) (k : Nat) :
    ∃ d', performAll ((saveOps data).take k) d = some d' ∧ d' .snapshot = mainAfter d data k ∧
      d' .snapshotBak = backupAfter d k := by
  wlog hk : k ≤ 7 generalizing k
  · obtain ⟨d', hd, hmain, hbak⟩ := this 7 (le_refl 7)
    refine ⟨d', ?_, ?_, ?_⟩
    · rw [List.take_of_length_le (show (saveOps data).length ≤ k by simp [saveOps]; omega)]
      exact hd
    · rw [hmain, mainAfter, mainAfter, if_neg (by decide), if_neg (by decide), if_neg (by omega),
        if_neg (by omega)]
    · rw [hbak, backupAfter, backupAfter]
      congr 1
      · exact propext (or_congr_right (by omega))
      · rw [if_neg (by decide), if_neg (by omega)]
  cases hmain : d .snapshot with
  | none =>
    interval_cases k <;> simp [saveOps, performAll, perform, mainAfter, backupAfter, hmain]
  | some f =>
    cases hbak : d .snapshotBak with
    | none =>
      interval_cases k <;>
        simp [saveOps, performAll, perform, mainAfter, backupAfter, hmain, hbak]
    | some g =>
      interval_cases k <;>
        simp [saveOps, performAll, perform, mainAfter, backupAfter, hmain, hbak]

/-- A missing snapshot stays missing until the new one is in place. -/
theorem mainAfter_none {d : DataDir} (h : d .snapshot = none) (data : Dict String KVStore.Item)
    {k : Nat} (hk : k < 5) : mainAfter d data k = none := by
  rw [mainAfter, if_pos hk, h, ite_self]

theorem mainAfter_old (d : DataDir) (data : Dict String KVStore.Item) {k : Nat} (hk : k < 4) :
    mainAfter d data k = d .snapshot := if_pos hk

theorem mainAfter_new (d : DataDir) (data : Dict String KVStore.Item) {k : Nat} (hk : 5 ≤ k) :
    mainAfter d data k = some (.closed (.snapshot data)) := by
  rw [mainAfter, if_neg (by omega), if_neg (by omega)]

/-- Until the snapshot is moved away there is no backup but the old one. -/
theorem readSnapshot_backupAfter {d : DataDir} (h : readSnapshot (d .snapshotBak) = none) {k : Nat}
    (hk : k < 4) : readSnapshot (backupAfter d k) = none := by
  rw [backupAfter, if_pos hk]
  split
  · exact h
  · rfl

/-- Where there is a snapshot file, `load` finds the earlier data. -/
theorem load_present {d : DataDir} (h : d .snapshot ≠ none) (now : Time) :
    load d now = (earlier d).map (unexpiredItems · now) := by
  rcases damaged_or (d .snapshot) with hmain | ⟨data, hmain⟩ | hmain
  · exact absurd hmain h
  · rw [load_readable hmain, earlier, hmain]
    rfl
  · rw [load_damaged hmain, earlier, hmain.2, Option.none_or]

/-- What `load` owes after a crash that stops `save` after `k` file operations. -/
def SavesAtomically (d : DataDir) (data : Dict String KVStore.Item) (k : Nat) : Prop :=
  ∃ d', performAll ((saveOps data).take k) d = some d' ∧ ∀ now,
    (load d' now = (earlier d).map (unexpiredItems · now) ∨
        load d' now = some (unexpiredItems data now)) ∧
      (earlier d ≠ none → load d' now ≠ none)

/-- What is enough for it: `load` finds the earlier data, if there is any, or the new. -/
theorem savesAtomically_of {d d' : DataDir} {data : Dict String KVStore.Item} {k : Nat}
    (hd : performAll ((saveOps data).take k) d = some d')
    (h : ∀ now, load d' now = (earlier d).map (unexpiredItems · now) ∨
      load d' now = some (unexpiredItems data now)) : SavesAtomically d data k := by
  refine ⟨d', hd, fun now => ⟨h now, fun hearlier hnone => ?_⟩⟩
  rcases h now with hload | hload
  · rw [hnone] at hload
    exact hearlier (Option.map_eq_none_iff.mp hload.symm)
  · rw [hnone] at hload
    cases hload

section

variable {d d' : DataDir} {data : Dict String KVStore.Item} {k : Nat}

/-- The crash comes between the renames, or it leaves neither a backup nor a readable snapshot:
    `load` finds nothing. -/
theorem load_lost (hmain : d' .snapshot = mainAfter d data k)
    (hbak : d' .snapshotBak = backupAfter d k) (hk : k < 5)
    (hmissing : k < 3 → d .snapshot = none)
    (hdamaged : k = 3 → readSnapshot (d .snapshot) = none) (now : Time) : load d' now = none := by
  by_cases hnone : d .snapshot = none
  · exact load_missing (hmain.trans (mainAfter_none hnone data hk)) now
  · have hk3 : ¬k < 3 := fun h => hnone (hmissing h)
    rcases (show k = 3 ∨ k = 4 by omega) with rfl | rfl
    · -- the backup is removed, and the snapshot is damaged
      rw [mainAfter_old d data (by decide)] at hmain
      have hread : Damaged (d' .snapshot) := by
        rw [hmain]
        exact ⟨hnone, hdamaged rfl⟩
      rw [load_damaged hread, hbak, backupAfter, if_neg (by simp [hnone]), if_pos (by decide)]
      rfl
    · -- the snapshot is moved away
      exact load_missing hmain now

/-- Once the new snapshot is in place, `load` finds it. -/
theorem load_new (hmain : d' .snapshot = mainAfter d data k) (hk : 5 ≤ k) (now : Time) :
    load d' now = some (unexpiredItems data now) := by
  refine load_readable ?_ now
  rw [hmain, mainAfter_new d data hk]
  rfl

/-- Without an earlier snapshot, `load` finds nothing until then. -/
theorem load_no_earlier (hmain : d' .snapshot = mainAfter d data k)
    (hbak : d' .snapshotBak = backupAfter d k) (hearlier : earlier d = none) (hk : k < 5)
    (now : Time) : load d' now = none := by
  obtain ⟨hnoMain, hnoBak⟩ := Option.or_eq_none_iff.mp hearlier
  by_cases hmoved : d .snapshot = none ∨ k = 4
  · refine load_missing ?_ now
    rw [hmain]
    rcases hmoved with hnone | rfl
    · exact mainAfter_none hnone data hk
    · rfl
  · obtain ⟨hpresent, hk4⟩ := not_or.mp hmoved
    rw [mainAfter_old d data (by omega)] at hmain
    have hdamaged : Damaged (d' .snapshot) := by
      rw [hmain]
      exact ⟨hpresent, hnoMain⟩
    rw [load_damaged hdamaged, hbak, readSnapshot_backupAfter hnoBak (by omega), Option.map_none]

end

/-- **Exactly when a crash in `save` loses nothing**: there is no earlier snapshot; or the crash
    comes after the new snapshot is in place; or there is a snapshot file, it is not moved away
    yet, and where the backup is removed already it can be read. -/
theorem save_crash_iff (d : DataDir) (data : Dict String KVStore.Item) (k : Nat) :
    SavesAtomically d data k ↔
      earlier d = none ∨ 5 ≤ k ∨ (k < 3 ∧ d .snapshot ≠ none) ∨
        (k = 3 ∧ readSnapshot (d .snapshot) ≠ none) := by
  obtain ⟨d', hd, hmain, hbak⟩ := performAll_saveOps d data k
  constructor
  · rintro ⟨d₁, hd₁, hload⟩
    rw [hd, Option.some.injEq] at hd₁
    subst hd₁
    by_contra hnot
    simp only [not_or, not_and, not_le, ne_eq, not_not] at hnot
    obtain ⟨hearlier, hk, hmissing, hdamaged⟩ := hnot
    exact (hload 0).2 hearlier (load_lost hmain hbak hk hmissing hdamaged 0)
  · rintro (hearlier | hk | ⟨hk, hmissing⟩ | ⟨rfl, hread⟩)
    · refine savesAtomically_of hd fun now => ?_
      by_cases hk : 5 ≤ k
      · exact .inr (load_new hmain hk now)
      · rw [load_no_earlier hmain hbak hearlier (not_le.mp hk), hearlier]
        exact .inl rfl
    · exact savesAtomically_of hd fun now => .inr (load_new hmain hk now)
    · rw [mainAfter_old d data (by omega)] at hmain
      rw [backupAfter, if_pos (.inr hk)] at hbak
      refine savesAtomically_of hd fun now => .inl ?_
      rw [load_present (by rwa [hmain]), earlier, earlier, hmain, hbak]
    · rw [mainAfter_old d data (by decide)] at hmain
      obtain ⟨old, hold⟩ := Option.ne_none_iff_exists'.mp hread
      refine savesAtomically_of hd fun now => .inl ?_
      rw [load_readable (by rw [hmain, hold]), earlier, hold]
      rfl

def oneKey : Dict String KVStore.Item :=
  Dict.empty.set "k" ⟨.str "x", none, 1, 1, 1, "n1"⟩

/-- Between the two renames there is no snapshot file, and the readable backup is not tried. -/
theorem crash_between_renames :
    earlier (twoFiles (some (.closed (.snapshot oneKey))) none) = some oneKey ∧
      (performAll ((saveOps Dict.empty).take 4)
          (twoFiles (some (.closed (.snapshot oneKey))) none)).map
          (fun d => (load d 1, readSnapshot (d .snapshotBak))) = some (none, some oneKey) ∧
      ¬SavesAtomically (twoFiles (some (.closed (.snapshot oneKey))) none) Dict.empty 4 := by
  refine ⟨rfl, rfl, ?_⟩
  rintro ⟨d', hd, hload⟩
  refine (hload 1).2 (fun h => by cases h) ?_
  rw [← Option.some.inj hd]
  rfl

end MiniDb.SnapshotFiles
