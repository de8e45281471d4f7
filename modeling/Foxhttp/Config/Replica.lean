import Foxhttp.Config.Loading

/-!
# Subscribers as replicas

A subscriber of a path who keeps the last value delivered to it has a replica
of the document at that path. A load which throws in the rebuild has replaced
the document and tells nobody, and a change which `operator==` does not see is
not delivered; every other load keeps the replica in step.
-/

namespace Foxhttp.Config

open Foxhttp.Library

/-- A call of `load_file`, with what the foreign code does in it. -/
structure LoadCall where
  outside : Outside
  path : Text

/-- The calls of one subscriber of one path. -/
def heardBy (path : Text) (subscriber : SubscriberId) (delivered : List Delivery) :
    List Delivery :=
  delivered.filter fun delivery => delivery.path == path && delivery.subscriber == subscriber

/-- Each old value is the new value before it. -/
def Chained : Json → List Delivery → Prop
  | _, [] => True
  | before, delivery :: rest => delivery.oldValue = before ∧ Chained delivery.newValue rest

/-- The last new value. -/
def lastValue : Json → List Delivery → Json
  | before, [] => before
  | _, delivery :: rest => lastValue delivery.newValue rest

namespace ConfigManager

/-- How often a subscriber is registered on a path. -/
def timesSubscribed (manager : ConfigManager) (path : Text) (subscriber : SubscriberId) : Nat :=
  ((manager.subscribers.filter fun entry => entry.1 == path).flatMap Prod.snd).count subscriber

section Runs

variable (cores : Nat) (path : Text) (subscriber : SubscriberId)

/-- Along a sequence of loads, after each of them the value last delivered is
the one in the document, and every old value delivered is the value before. -/
def Replicates (manager : ConfigManager) (last : Json) : List LoadCall → Prop
  | [] => True
  | call :: rest =>
      let loaded := manager.loadFile cores call.outside call.path
      let heard := heardBy path subscriber loaded.delivered
      Chained last heard ∧
        lastValue last heard = Json.jsonPointerAt loaded.manager.document path ∧
        Replicates loaded.manager (lastValue last heard) rest

/-- A load which the subscriber can follow: nothing passes the validator, or the
value is the same as before, or every section can be read and `operator==` sees
the change. -/
def Followed (manager : ConfigManager) (call : LoadCall) : Prop :=
  ∀ merged, manager.Proposes cores call.outside call.path merged →
    Json.jsonPointerAt manager.document path = Json.jsonPointerAt merged path ∨
      WellTyped merged ∧ Json.same (Json.jsonPointerAt manager.document path)
        (Json.jsonPointerAt merged path) = false

/-- Every load of a sequence can be followed. -/
def AllFollowed (manager : ConfigManager) : List LoadCall → Prop
  | [] => True
  | call :: rest =>
      manager.Followed cores path call ∧
        AllFollowed (manager.loadFile cores call.outside call.path).manager rest

end Runs

/-! ## What a load delivers -/

/-- The calls for one path which are calls of one subscriber. -/
theorem heardBy_map (path : Text) (subscriber : SubscriberId) (newValue oldValue : Json)
    (callbacks : List SubscriberId) :
    heardBy path subscriber (callbacks.map fun other => ⟨path, other, newValue, oldValue⟩) =
      List.replicate (callbacks.count subscriber) ⟨path, subscriber, newValue, oldValue⟩ := by
  induction callbacks with
  | nil => rfl
  | cons other callbacks inductionHypothesis =>
      rw [List.map_cons, heardBy, List.filter_cons, ← heardBy, inductionHypothesis,
        List.count_cons]
      by_cases same : other = subscriber
      · subst same
        simp [List.replicate_succ]
      · simp [same]

/-- A subscriber registered on a path hears of a change there, as often as it is
registered. -/
theorem heardBy_notifySubscribers (manager : ConfigManager) (newDoc oldDoc : Json) (path : Text)
    (subscriber : SubscriberId) :
    heardBy path subscriber (manager.notifySubscribers newDoc oldDoc) =
      if Json.same (Json.jsonPointerAt oldDoc path) (Json.jsonPointerAt newDoc path) then []
      else List.replicate (manager.timesSubscribed path subscriber)
        ⟨path, subscriber, Json.jsonPointerAt newDoc path, Json.jsonPointerAt oldDoc path⟩ := by
  rw [notifySubscribers, timesSubscribed]
  induction manager.subscribers with
  | nil => simp [heardBy]
  | cons entry rest inductionHypothesis =>
      obtain ⟨other, callbacks⟩ := entry
      rw [List.flatMap_cons, heardBy, List.filter_append, ← heardBy, ← heardBy,
        inductionHypothesis]
      dsimp only
      by_cases isPath : other = path
      · subst isPath
        have kept : ((other, callbacks) :: rest).filter (fun entry => entry.1 == other) =
            (other, callbacks) :: rest.filter fun entry => entry.1 == other := by simp
        rw [kept, List.flatMap_cons, List.count_append]
        split
        · rfl
        · rw [heardBy_map, List.replicate_append_replicate]
      · have skipped : ((other, callbacks) :: rest).filter (fun entry => entry.1 == path) =
            rest.filter fun entry => entry.1 == path := by simp [isPath]
        have elsewhere : heardBy path subscriber
            (if Json.same (Json.jsonPointerAt oldDoc other) (Json.jsonPointerAt newDoc other) then
              []
            else callbacks.map fun subscriber => ⟨other, subscriber,
              Json.jsonPointerAt newDoc other, Json.jsonPointerAt oldDoc other⟩) = [] := by
          rw [heardBy, List.filter_eq_nil_iff]
          intro delivery member
          split at member
          · cases member
          · obtain ⟨callback, -, rfl⟩ := List.mem_map.mp member
            simp [isPath]
        rw [elsewhere, skipped, List.nil_append]

/-- A load leaves the subscribers as they are. -/
theorem subscribers_loadFile (cores : Nat) (outside : Outside) (manager : ConfigManager)
    (path : Text) : (manager.loadFile cores outside path).manager.subscribers =
      manager.subscribers := by
  rcases refused_or_proposes cores outside manager path with refused | ⟨merged, proposes⟩
  · rw [(loadFile_of_not_proposes refused).1]
  · exact (loadFile_installs proposes).subscribers

/-- A load which proposes a document delivers its changes when every section can
be read. -/
theorem delivered_of_proposes {cores : Nat} {outside : Outside} {manager : ConfigManager}
    {path : Text} {merged : Json} (proposes : manager.Proposes cores outside path merged) :
    (WellTyped merged → (manager.loadFile cores outside path).delivered =
        manager.notifySubscribers merged manager.document) ∧
      (¬ WellTyped merged → (manager.loadFile cores outside path).delivered = []) := by
  have delivered := (loadFile_installs proposes).delivered
  have reads := (reads_iff_isSome _).symm.trans
    (reads_snapshot cores ((manager.versionCounter + 1) % UInt64.size) merged)
  exact ⟨fun wellTyped => delivered.trans (if_pos (reads.mpr wellTyped)),
    fun ill => delivered.trans (if_neg (mt reads.mp ill))⟩

/-! ## Keeping the replica -/

theorem followed_iff {cores : Nat} {manager : ConfigManager} {call : LoadCall} {path : Text}
    {merged : Json} (proposes : manager.Proposes cores call.outside call.path merged) :
    manager.Followed cores path call ↔
      Json.jsonPointerAt manager.document path = Json.jsonPointerAt merged path ∨
        WellTyped merged ∧ Json.same (Json.jsonPointerAt manager.document path)
          (Json.jsonPointerAt merged path) = false := by
  constructor
  · intro followed
    exact followed merged proposes
  · intro holds other otherProposes
    cases proposes_unique proposes otherProposes
    exact holds

/-- One load keeps a replica which is in step exactly when it can be followed. -/
theorem inStep_iff_followed (cores : Nat) {manager : ConfigManager} {path : Text}
    {subscriber : SubscriberId} (once : manager.timesSubscribed path subscriber = 1)
    (call : LoadCall) :
    Chained (Json.jsonPointerAt manager.document path)
        (heardBy path subscriber (manager.loadFile cores call.outside call.path).delivered) ∧
      lastValue (Json.jsonPointerAt manager.document path)
          (heardBy path subscriber (manager.loadFile cores call.outside call.path).delivered) =
        Json.jsonPointerAt (manager.loadFile cores call.outside call.path).manager.document path ↔
    manager.Followed cores path call := by
  rcases refused_or_proposes cores call.outside manager call.path with refused | ⟨merged, proposes⟩
  · obtain ⟨unchanged, -, delivered⟩ := loadFile_of_not_proposes refused
    rw [delivered, unchanged]
    exact iff_of_true ⟨trivial, rfl⟩ fun merged proposes => absurd proposes (refused merged)
  · obtain ⟨wellTyped, illTyped⟩ := delivered_of_proposes proposes
    rw [(loadFile_installs proposes).document, followed_iff proposes]
    by_cases typed : WellTyped merged
    · rw [wellTyped typed, heardBy_notifySubscribers, once]
      cases unseen : Json.same (Json.jsonPointerAt manager.document path)
          (Json.jsonPointerAt merged path) with
      | true => simp [Chained, lastValue]
      | false => simp [Chained, lastValue, typed]
    · rw [illTyped typed]
      simp [heardBy, Chained, lastValue, typed]

theorem replicates_iff_of_inStep (cores : Nat) {path : Text} {subscriber : SubscriberId}
    (calls : List LoadCall) {manager : ConfigManager}
    (once : manager.timesSubscribed path subscriber = 1) :
    Replicates cores path subscriber manager (Json.jsonPointerAt manager.document path) calls ↔
      AllFollowed cores path manager calls := by
  induction calls generalizing manager with
  | nil => exact iff_of_true trivial trivial
  | cons call rest inductionHypothesis =>
      have turn := inStep_iff_followed cores once call
      have later : (manager.loadFile cores call.outside call.path).manager.timesSubscribed path
          subscriber = 1 := by
        rw [timesSubscribed, subscribers_loadFile, ← timesSubscribed, once]
      rw [Replicates, AllFollowed, ← turn, ← inductionHypothesis later, ← and_assoc]
      constructor
      · rintro ⟨inStep, continues⟩
        exact ⟨inStep, inStep.2 ▸ continues⟩
      · rintro ⟨inStep, continues⟩
        exact ⟨inStep, inStep.2 ▸ continues⟩

theorem jsonPointerAt_null (path : Text) : Json.jsonPointerAt .null path = .null := by
  rw [Json.jsonPointerAt, Json.walkDotPath]
  split
  · rfl
  · cases path.splitOn '.' with
    | nil => rfl
    | cons key rest => rfl

/-- From a manager without a document, a subscriber who is registered once keeps
a replica along a sequence of loads exactly when each load can be followed. -/
theorem replicates_iff (cores : Nat) {manager : ConfigManager} (fresh : manager.document = .null)
    {path : Text} {subscriber : SubscriberId}
    (once : manager.timesSubscribed path subscriber = 1) (calls : List LoadCall) :
    Replicates cores path subscriber manager .null calls ↔
      AllFollowed cores path manager calls := by
  have inStep := replicates_iff_of_inStep cores calls once
  rwa [fresh, jsonPointerAt_null] at inStep

/-- A document with empty groups. -/
def emptyGroups : Json :=
  Json.ofMembers [("parsers", .object []), ("core", .object [])]

/-- A file with that document. -/
def emptyOutside : Outside :=
  { deepOutside with parse := fun _ => some emptyGroups }

/-- A load of the document is delivered to a subscriber of a group. -/
theorem replicates_emptyGroups :
    Replicates 4 "core".toList 7 (({} : ConfigManager).subscribe "core".toList 7) .null
      [⟨emptyOutside, "server.json".toList⟩] := by
  refine (replicates_iff 4 rfl (by decide) _).mpr ⟨?_, trivial⟩
  have before : Json.jsonPointerAt (({} : ConfigManager).subscribe "core".toList 7).document
      "core".toList = .null := rfl
  have after : Json.jsonPointerAt emptyGroups "core".toList = .object [] := rfl
  refine (followed_iff ⟨_, emptyGroups, rfl, rfl, rfl, rfl⟩).mpr (.inr ?_)
  rw [deepMerge_default, before, after, Json.same]
  · exact ⟨(reads_snapshot 4 0 emptyGroups).mp ⟨_, rfl⟩, rfl⟩
  all_goals simp

/-- A load which throws in the rebuild replaces the document, and the subscriber
does not hear of it. -/
theorem thrown_load_not_delivered :
    ¬ ∀ (cores : Nat) (manager : ConfigManager) (path : Text) (subscriber : SubscriberId)
      (calls : List LoadCall), manager.document = .null →
      manager.timesSubscribed path subscriber = 1 →
      Replicates cores path subscriber manager .null calls := by
  intro replicates
  obtain ⟨-, inStep, -⟩ := replicates 4 (({} : ConfigManager).subscribe "core".toList 7)
    "core".toList 7 [⟨deepOutside, "server.json".toList⟩] rfl (by decide)
  have unheard : heardBy "core".toList 7
      ((({} : ConfigManager).subscribe "core".toList 7).loadFile 4 deepOutside
        "server.json".toList).delivered = [] := rfl
  have replaced : Json.jsonPointerAt ((({} : ConfigManager).subscribe "core".toList 7).loadFile 4
      deepOutside "server.json".toList).manager.document "core".toList = .object [] := rfl
  rw [unheard, replaced] at inStep
  cases inStep

end ConfigManager

end Foxhttp.Config
