import Foxhttp.Config.Manager

/-!
# Loading all or nothing

`load_file` swaps the merged document in before it reads the sections. When a
section throws, the document has changed and the snapshot has not, unless the
same document was left in place before.
-/

namespace Foxhttp.Config

open Foxhttp.Library

/-- The default document is an array, so merging into it takes the other whole. -/
theorem deepMerge_default (cores : Nat) (document : Json) :
    Json.deepMerge (defaultDocument cores) document = document := by
  cases document <;> rfl

theorem reads_iff_isSome {T : Type} (reading : Except TypeError T) :
    Reads reading ↔ reading.toOption.isSome = true := by
  cases reading <;> simp [Except.toOption]

theorem reads_snapshot (cores version : Nat) (document : Json) :
    Reads (ConfigManager.readSnapshot cores version document) ↔ WellTyped document := by
  simp only [ConfigManager.readSnapshot, reads_bind, exists_and_right, exists_reads, reads_pure,
    and_true, reads_jsonFromDoc, reads_multipartFromDoc, reads_formFromDoc, reads_plainFromDoc,
    reads_strandPoolFromDoc, reads_timerFromDoc, WellTyped, List.forall_mem_cons]
  simp only [List.not_mem_nil, false_implies, implies_true, and_true]

/-- Every section of a snapshot is the one of a document. -/
structure SnapshotOf (cores : Nat) (document : Json) (snapshot : ConfigSnapshot) : Prop where
  json : jsonFromDoc document = .ok snapshot.json
  multipart : multipartFromDoc document = .ok snapshot.multipart
  form : formFromDoc document = .ok snapshot.form
  plain : plainFromDoc document = .ok snapshot.plain
  strandPool : strandPoolFromDoc cores document = .ok snapshot.strandPool
  timerMgr : timerFromDoc document = .ok snapshot.timerMgr

namespace SnapshotOf

variable {cores version : Nat} {document : Json}

theorem of_read {snapshot : ConfigSnapshot}
    (isRead : ConfigManager.readSnapshot cores version document = .ok snapshot) :
    SnapshotOf cores document snapshot := by
  simp only [ConfigManager.readSnapshot, bind_eq_ok] at isRead
  obtain ⟨_, json, _, multipart, _, form, _, plain, _, strandPool, _, timerMgr, same⟩ := isRead
  cases same
  exact { json, multipart, form, plain, strandPool, timerMgr }

end SnapshotOf

namespace ConfigManager

variable (cores : Nat) (outside : Outside) (manager : ConfigManager) (path : Text)

/-- The loader gives a document which, merged into the defaults, passes the
validator. -/
def Proposes (merged : Json) : Prop :=
  ∃ loader document, manager.loaderFor outside (extension path) = some loader ∧
    loader path = .ok (some document) ∧
    merged = Json.deepMerge (defaultDocument cores) document ∧
    manager.validated outside merged = .ok true

/-- Either the call returns true and everything is what the loader proposed, or
everything is as it was. -/
def AllOrNothing : Prop :=
  let loaded := manager.loadFile cores outside path
  match loaded.outcome with
  | .ok true => ∃ merged snapshot, manager.Proposes cores outside path merged ∧
      loaded.manager.document = merged ∧ loaded.manager.lastGoodDocument = merged ∧
      loaded.manager.snapshot = some snapshot ∧
      SnapshotOf cores loaded.manager.document snapshot
  | _ => loaded.manager.document = manager.document ∧
      loaded.manager.lastGoodDocument = manager.lastGoodDocument ∧
      loaded.manager.snapshot = manager.snapshot

variable {cores outside manager path}

/-- Past the validator, the swapped manager rebuilds its snapshot. -/
theorem loadFile_of_proposes {merged : Json}
    (proposes : manager.Proposes cores outside path merged) :
    manager.loadFile cores outside path =
      match ({ manager with document := merged, lastGoodDocument := merged } :
          ConfigManager).rebuildSnapshot cores with
      | (.error error, after) => { outcome := .error (.type error), manager := after }
      | (.ok (), after) =>
          { outcome := .ok true, manager := after,
            delivered := after.notifySubscribers after.document manager.document } := by
  obtain ⟨loader, document, isLoader, loads, rfl, valid⟩ := proposes
  rcases rebuilt : ({ manager with
      document := (defaultDocument cores).deepMerge document
      lastGoodDocument := (defaultDocument cores).deepMerge document } :
        ConfigManager).rebuildSnapshot cores with ⟨result, after⟩
  cases result with
  | error error => simp only [loadFile, isLoader, loads, valid, rebuilt]
  | ok read => simp only [loadFile, isLoader, loads, valid, rebuilt]

/-- Before that, nothing is written and nobody is told. -/
theorem loadFile_of_not_proposes
    (refused : ∀ merged, ¬ manager.Proposes cores outside path merged) :
    (manager.loadFile cores outside path).manager = manager ∧
      (manager.loadFile cores outside path).outcome ≠ .ok true ∧
      (manager.loadFile cores outside path).delivered = [] := by
  rw [loadFile]
  split
  · exact ⟨rfl, by simp, rfl⟩
  · rename_i loader isLoader
    split
    · exact ⟨rfl, by simp, rfl⟩
    · exact ⟨rfl, by simp, rfl⟩
    · rename_i document loads
      dsimp only
      split
      · exact ⟨rfl, by simp, rfl⟩
      · exact ⟨rfl, by simp, rfl⟩
      · rename_i valid
        exact absurd ⟨loader, document, isLoader, loads, rfl, valid⟩ (refused _)

theorem refused_or_proposes (cores : Nat) (outside : Outside) (manager : ConfigManager)
    (path : Text) :
    (∀ merged, ¬ manager.Proposes cores outside path merged) ∨
      ∃ merged, manager.Proposes cores outside path merged := by
  rw [← not_exists]
  exact (Classical.em _).symm

/-- What a load leaves which puts a document in place: a snapshot of it and its
changes delivered when every section can be read, and the snapshot before
otherwise. -/
structure Installs (cores version : Nat) (before : ConfigManager) (merged : Json)
    (loaded : Loaded) : Prop where
  outcome : loaded.outcome.toOption =
    (readSnapshot cores version merged).toOption.map fun _ => true
  document : loaded.manager.document = merged
  snapshot : loaded.manager.snapshot =
    (readSnapshot cores version merged).toOption.or before.snapshot
  subscribers : loaded.manager.subscribers = before.subscribers
  delivered : loaded.delivered =
    if (readSnapshot cores version merged).toOption.isSome then
      before.notifySubscribers merged before.document
    else []

theorem loadFile_installs {merged : Json}
    (proposes : manager.Proposes cores outside path merged) :
    Installs cores ((manager.versionCounter + 1) % UInt64.size) manager merged
      (manager.loadFile cores outside path) := by
  rw [loadFile_of_proposes proposes, rebuildSnapshot]
  dsimp only
  cases isRead : readSnapshot cores ((manager.versionCounter + 1) % UInt64.size) merged with
  | ok snapshot => refine ⟨?_, rfl, ?_, rfl, ?_⟩ <;> (rw [isRead]; rfl)
  | error error => refine ⟨?_, rfl, ?_, rfl, ?_⟩ <;> (rw [isRead]; rfl)

theorem proposes_unique {first second : Json} (one : manager.Proposes cores outside path first)
    (two : manager.Proposes cores outside path second) : first = second := by
  obtain ⟨loader, document, isLoader, loads, rfl, -⟩ := one
  obtain ⟨other, another, isOther, loadsOther, rfl, -⟩ := two
  cases isLoader.symm.trans isOther
  cases loads.symm.trans loadsOther
  rfl

/-- A load is all or nothing exactly when a document which passes the validator
is well typed, or is the one already in place. -/
theorem load_allOrNothing_iff (cores : Nat) (outside : Outside) (manager : ConfigManager)
    (path : Text) :
    manager.AllOrNothing cores outside path ↔
      ∀ merged, manager.Proposes cores outside path merged →
        WellTyped merged ∨ (manager.document = merged ∧ manager.lastGoodDocument = merged) := by
  rcases refused_or_proposes cores outside manager path with refused | ⟨merged, proposes⟩
  · refine iff_of_true ?_ fun merged proposes => absurd proposes (refused merged)
    obtain ⟨unchanged, notTrue, -⟩ := loadFile_of_not_proposes refused
    rw [AllOrNothing]
    split
    · contradiction
    · rw [unchanged]
      exact ⟨rfl, rfl, rfl⟩
  · rw [AllOrNothing, loadFile_of_proposes proposes, rebuildSnapshot]
    dsimp only
    cases isRead : readSnapshot cores ((manager.versionCounter + 1) % UInt64.size) merged with
    | ok snapshot =>
      refine iff_of_true ⟨merged, snapshot, proposes, rfl, rfl, rfl, .of_read isRead⟩ ?_
      intro other otherProposes
      cases proposes_unique proposes otherProposes
      exact .inl ((reads_snapshot cores _ merged).mp ⟨snapshot, isRead⟩)
    | error error =>
      constructor
      · rintro ⟨document, lastGood, -⟩ other otherProposes
        cases proposes_unique proposes otherProposes
        exact .inr ⟨document.symm, lastGood.symm⟩
      · intro holds
        rcases holds merged proposes with wellTyped | ⟨document, lastGood⟩
        · obtain ⟨snapshot, same⟩ := (reads_snapshot cores _ merged).mpr wellTyped
          cases isRead.symm.trans same
        · exact ⟨document.symm, lastGood.symm, rfl⟩

/-- A document with a text for the greatest depth. -/
def deepDocument : Json :=
  Json.ofMembers [
    ("parsers", Json.ofMembers [
      ("json", Json.ofMembers [("maxDepth", .string "deep".toList)])]),
    ("core", .object [])]

/-- A file with that document. -/
def deepOutside : Outside where
  contents _ := some []
  parse _ := some deepDocument
  loadYaml _ := none
  load _ _ := .ok none
  validate _ := .ok (true, [])
  log _ := .ok ()

/-- A fresh manager throws on it, with the document in place. -/
theorem deep_document_stays :
    ¬ ∀ (cores : Nat) (outside : Outside) (manager : ConfigManager) (path : Text),
      manager.AllOrNothing cores outside path := by
  intro allOrNothing
  have load := allOrNothing 4 deepOutside {} "server.json".toList
  have throws : (({} : ConfigManager).loadFile 4 deepOutside "server.json".toList).outcome =
      .error (.type { id := 302, what := "type must be number, but is string" }) := rfl
  have stays : (({} : ConfigManager).loadFile 4 deepOutside "server.json".toList).manager.document =
      deepDocument := rfl
  rw [AllOrNothing, throws] at load
  have unchanged : deepDocument = .null := stays.symm.trans load.1
  cases unchanged

end ConfigManager

end Foxhttp.Config
