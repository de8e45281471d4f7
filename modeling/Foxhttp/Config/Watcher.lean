import Foxhttp.Config.Loading
import Foxhttp.Library.Transition

/-!
# Watching the configuration file

`ConfigWatcher` polls the time of modification of one file on a thread of its own and
has the manager load the file when it differs from the one it keeps. Others write
files at any instant, also between the look at the time and the load. One thread
calls `initialize`, `reload`, `start_watching` and `stop_watching`.
-/

namespace Foxhttp.Config

open Foxhttp.Library

/-- A file, with a time of modification. -/
structure File where
  stamp : Int
  text : Text
deriving DecidableEq

/-- Where the thread in `run_loop` is. -/
inductive WatchPhase where
  /-- At the test of `running_`. -/
  | head
  /-- Before the look at the clock. -/
  | awake
  /-- Past the debounce, with the time it read off the clock. -/
  | looking (now : Nat)
  /-- The new time is kept, and `load_file` is to be called. -/
  | found
  /-- In `sleep_for`. -/
  | asleep (wake : Nat)
  /-- `run_loop` has returned. -/
  | left
deriving DecidableEq

/-- `ConfigWatcher`, with the variable of `run_loop`. Times are in milliseconds. -/
structure ConfigWatcher where
  path : Text
  interval : Nat
  running : Bool := false
  lastWriteTime : Int := 0
  debounceUntil : Nat := 0
  phase : WatchPhase := .left

/-- What the calling thread is in the middle of. -/
inductive Caller where
  | free
  /-- `initialize`, between its load and `start_watching`. -/
  | initializing (interval : Nat)
  /-- `stop`, in `join`. -/
  | joining
deriving DecidableEq

/-- The files, the clock, the manager and its watcher. -/
structure Watched where
  files : Text → Option File := fun _ => none
  now : Nat := 0
  manager : ConfigManager := {}
  watcher : Option ConfigWatcher := none
  caller : Caller := .free
  /-- An exception has left `run_loop`, which is `std::terminate`. -/
  terminated : Bool := false

/-- What happens to the file at a path. -/
inductive WatchEvent where
  | wrote (path : Text) (file : Option File)
  | loaded (path : Text) (file : Option File) (byWatcher : Bool)
  | started (path : Text) (file : Option File)

/-- Who moves, and what for. -/
inductive WatchChoice where
  | tick (elapsed : Nat)
  | write (path : Text) (file : Option File)
  | initializeWith (path : Text) (enableWatch : Bool) (interval : Nat)
  /-- `initialize` goes on behind its load. -/
  | proceed
  | reload
  | startWatching (interval : Nat)
  | stopWatching
  /-- The thread which is waited for has returned. -/
  | join
  /-- The thread of the watcher moves. -/
  | turn

/-- `ConfigWatcher::last_write_time`, which is the default value for an error. -/
def writeTime (files : Text → Option File) (path : Text) : Int :=
  match files path with
  | some file => file.stamp
  | none => 0

namespace Watched

variable (cores : Nat) (outside : Option Text → Outside)

/-- A load of a path as the file is now, and what `load_file` gives. -/
def load (state : Watched) (path : Text) : Loaded :=
  state.manager.loadFile cores (outside ((state.files path).map File.text)) path

/-- `ConfigWatcher::start`. -/
def startWatcher (state : Watched) (watcher : ConfigWatcher) : Option WatchEvent × Watched :=
  if watcher.running then (none, { state with watcher := some watcher })
  else
    (some (.started watcher.path (state.files watcher.path)),
      { state with
        watcher := some
          { watcher with
            running := true
            lastWriteTime := writeTime state.files watcher.path
            debounceUntil := 0
            phase := .head } })

/-- `ConfigManager::start_watching`. A watcher which is there keeps its path. -/
def startWatching (state : Watched) (interval : Nat) : Option WatchEvent × Watched :=
  if state.manager.configPath = [] then (none, state)
  else
    state.startWatcher
      (state.watcher.getD { path := state.manager.configPath, interval })

/-- `ConfigManager::stop_watching`. -/
def stopWatching (state : Watched) : Watched :=
  match state.watcher with
  | some watcher =>
      if watcher.running then
        { state with watcher := some { watcher with running := false }, caller := .joining }
      else state
  | none => state

/-- `ConfigManager::initialize`, up to `start_watching`, which is not reached when
the load throws. -/
def initializeWith (state : Watched) (path : Text) (enableWatch : Bool) (interval : Nat) :
    Watched :=
  let state := { state with manager := { state.manager with configPath := path } }
  let loaded := state.load cores outside path
  { state with
    manager := loaded.manager
    caller := if enableWatch ∧ loaded.outcome.toOption.isSome then .initializing interval
      else .free }

/-- The watcher sleeps from now on. -/
def sleep (state : Watched) (watcher : ConfigWatcher) : Watched :=
  { state with
    watcher := some { watcher with phase := .asleep (state.now + watcher.interval) } }

/-- One access of `run_loop` to what others use as well. -/
def turn (state : Watched) (watcher : ConfigWatcher) : Option (Option WatchEvent × Watched) :=
  match watcher.phase with
  | .head =>
      let phase := if watcher.running then .awake else .left
      some (none, { state with watcher := some { watcher with phase } })
  | .awake =>
      if watcher.debounceUntil ≤ state.now then
        some (none, { state with watcher := some { watcher with phase := .looking state.now } })
      else some (none, state.sleep watcher)
  | .looking now =>
      let time := writeTime state.files watcher.path
      if time ≠ 0 ∧ time ≠ watcher.lastWriteTime then
        some (none,
          { state with
            watcher := some
              { watcher with lastWriteTime := time, debounceUntil := now + 300, phase := .found } })
      else some (none, state.sleep watcher)
  | .found =>
      let loaded := state.load cores outside watcher.path
      let after := { state with manager := loaded.manager }
      some (some (.loaded watcher.path (state.files watcher.path) true),
        match loaded.outcome with
        | .ok _ => after.sleep watcher
        | .error _ =>
            { after with watcher := some { watcher with phase := .left }, terminated := true })
  | .asleep wake =>
      if wake ≤ state.now then
        some (none, { state with watcher := some { watcher with phase := .head } })
      else none
  | .left => none

/-- A move, unless the program has terminated. -/
def step (state : Watched) (choice : WatchChoice) : Option (Option WatchEvent × Watched) :=
  if state.terminated then none
  else match choice with
    | .tick elapsed => some (none, { state with now := state.now + elapsed })
    | .write path file =>
        some (some (.wrote path file),
          { state with
            files := fun other => if other = path then file else state.files other })
    | .initializeWith path enableWatch interval =>
        if state.caller = .free then
          some (some (.loaded path (state.files path) false),
            state.initializeWith cores outside path enableWatch interval)
        else none
    | .proceed =>
        match state.caller with
        | .initializing interval => some ({ state with caller := .free }.startWatching interval)
        | _ => none
    | .reload =>
        if state.caller = .free then
          if state.manager.configPath = [] then some (none, state)
          else
            some
              (some (.loaded state.manager.configPath (state.files state.manager.configPath) false),
              { state with
                manager := (state.load cores outside state.manager.configPath).manager })
        else none
    | .startWatching interval =>
        if state.caller = .free then some (state.startWatching interval) else none
    | .stopWatching => if state.caller = .free then some (none, state.stopWatching) else none
    | .join =>
        match state.watcher with
        | some watcher =>
            if state.caller = .joining ∧ watcher.phase = .left then
              some (none, { state with caller := .free })
            else none
        | none => none
    | .turn => state.watcher.bind (state.turn cores outside)

end Watched

/-- A manager with its watcher. Files which are there before are written first. -/
def watching (cores : Nat) (outside : Option Text → Outside) :
    System Watched WatchChoice WatchEvent where
  Initial state := ∃ manager, state = { manager }
  step := Watched.step cores outside

/-! ## What a load leaves -/

namespace ConfigManager

variable {cores : Nat} {outside : Outside} {path : Text}

/-- What a manager calls in a load. -/
structure SameCallbacks (first second : ConfigManager) : Prop where
  loaders : first.loaders = second.loaders
  hasValidator : first.hasValidator = second.hasValidator
  hasLogger : first.hasLogger = second.hasLogger

theorem proposes_congr {first second : ConfigManager} (same : SameCallbacks first second)
    (merged : Json) :
    first.Proposes cores outside path merged ↔ second.Proposes cores outside path merged := by
  simp only [Proposes, loaderFor, validated, same.loaders, same.hasValidator, same.hasLogger]

theorem sameCallbacks_loadFile (cores : Nat) (outside : Outside) (manager : ConfigManager)
    (path : Text) : SameCallbacks (manager.loadFile cores outside path).manager manager := by
  rcases refused_or_proposes cores outside manager path with refused | ⟨merged, proposes⟩
  · rw [(loadFile_of_not_proposes refused).1]
    exact ⟨rfl, rfl, rfl⟩
  · rw [loadFile_of_proposes proposes, rebuildSnapshot]
    dsimp only
    cases readSnapshot cores ((manager.versionCounter + 1) % UInt64.size) merged <;>
      exact ⟨rfl, rfl, rfl⟩

end ConfigManager

/-- Foreign code which does not throw. -/
structure Outside.NeverThrows (outside : Outside) : Prop where
  load : ∀ loader path, ∃ document, outside.load loader path = .ok document
  validate : ∀ document, ∃ answer, outside.validate document = .ok answer
  log : ∀ text, outside.log text = .ok ()

namespace ConfigManager

variable {cores : Nat} {outside : Outside} {path : Text} {manager : ConfigManager}

theorem loader_ok (calm : outside.NeverThrows) {ext : Text}
    {loader : Text → Except Thrown (Option Json)}
    (isLoader : manager.loaderFor outside ext = some loader) (path : Text) :
    ∃ document, loader path = .ok document := by
  rw [loaderFor] at isLoader
  split at isLoader
  · rename_i identifier _
    cases isLoader
    exact calm.load identifier path
  · split at isLoader
    · cases isLoader
      exact ⟨_, rfl⟩
    · split at isLoader <;> cases isLoader
      exact ⟨_, rfl⟩

theorem validated_ok (calm : outside.NeverThrows) (manager : ConfigManager) (merged : Json) :
    ∃ answer, manager.validated outside merged = .ok answer := by
  obtain ⟨⟨valid, error⟩, answers⟩ := calm.validate merged
  rw [validated, answers]
  cases manager.hasValidator <;> cases valid <;> cases manager.hasLogger <;>
    exact ⟨_, by simp only [calm.log]; rfl⟩

/-- When nobody else throws, a load throws on a document with a section which it
cannot read. -/
theorem loadFile_throws_iff (calm : outside.NeverThrows) (manager : ConfigManager) (path : Text) :
    (∃ thrown, (manager.loadFile cores outside path).outcome = .error thrown) ↔
      ∃ merged, manager.Proposes cores outside path merged ∧ ¬ WellTyped merged := by
  rcases refused_or_proposes cores outside manager path with refused | ⟨merged, proposes⟩
  · refine iff_of_false ?_ fun ⟨merged, proposes, _⟩ => refused merged proposes
    rintro ⟨thrown, throws⟩
    rw [loadFile] at throws
    split at throws
    · cases throws
    · rename_i loader isLoader
      obtain ⟨document, loads⟩ := loader_ok calm isLoader path
      rw [loads] at throws
      cases document with
      | none => cases throws
      | some document =>
          obtain ⟨answer, answers⟩ := validated_ok calm manager
            (Json.deepMerge (defaultDocument cores) document)
          dsimp only at throws
          rw [answers] at throws
          cases answer with
          | false => cases throws
          | true => exact refused _ ⟨loader, document, isLoader, loads, rfl, answers⟩
  · have outcome := (loadFile_installs proposes).outcome
    have reads := reads_snapshot cores ((manager.versionCounter + 1) % UInt64.size) merged
    rw [reads_iff_isSome] at reads
    have throws : (∃ thrown, (manager.loadFile cores outside path).outcome = .error thrown) ↔
        ¬ WellTyped merged := by
      rw [← reads]
      cases isOutcome : (manager.loadFile cores outside path).outcome <;>
        cases isRead : (readSnapshot cores ((manager.versionCounter + 1) % UInt64.size)
          merged).toOption <;> simp_all [Except.toOption]
    rw [throws]
    refine ⟨fun untyped => ⟨merged, proposes, untyped⟩, ?_⟩
    rintro ⟨other, otherProposes, untyped⟩
    exact proposes_unique proposes otherProposes ▸ untyped

end ConfigManager

/-! ## What happened to a file -/

/-- What a load, or the start of the watch, saw at a path. -/
structure View where
  file : Option File
  byLoad : Bool

namespace WatchEvent

/-- What an event has seen at a path. -/
def view (path : Text) : WatchEvent → Option View
  | .wrote _ _ => none
  | .loaded other file _ => if other = path then some ⟨file, true⟩ else none
  | .started other file => if other = path then some ⟨file, false⟩ else none

/-- The time an event gives to the file at a path. -/
def stamp (path : Text) : WatchEvent → Option Int
  | .wrote other (some file) => if other = path then some file.stamp else none
  | _ => none

/-- The load an event is. -/
def load : WatchEvent → Option (Text × Option File)
  | .loaded path file _ => some (path, file)
  | _ => none

end WatchEvent

section Histories

variable (path : Text) (events : List WatchEvent)

/-- What was seen last at a path. -/
def lastView : Option View := (events.filterMap (WatchEvent.view path)).getLast?

/-- The times which the file at a path has had. -/
def stamps : List Int := events.filterMap (WatchEvent.stamp path)

/-- The last load of any file. -/
def lastLoad : Option (Text × Option File) := (events.filterMap WatchEvent.load).getLast?

/-- Writes of a file since the last start of its watch, removals apart, and loads by
the watcher. -/
structure Tally where
  writes : Nat := 0
  loads : Nat := 0

/-- Count one event. -/
def Tally.count (path : Text) (tally : Tally) : WatchEvent → Tally
  | .wrote other (some _) =>
      if other = path then { tally with writes := tally.writes + 1 } else tally
  | .wrote _ none => tally
  | .loaded other _ byWatcher =>
      if other = path ∧ byWatcher then { tally with loads := tally.loads + 1 } else tally
  | .started other _ => if other = path then {} else tally

/-- The events so far, counted. -/
def tally : Tally := events.foldl (Tally.count path) {}

end Histories

/-- Every write gives the file a time which it has never had, and which is not the
default value. -/
def freshStamps : System.Guard Watched WatchEvent := fun events _ event =>
  match event with
  | some (.wrote path (some file)) => file.stamp ≠ 0 ∧ file.stamp ∉ stamps path events
  | _ => True

instance (events : List WatchEvent) (state : Watched) (event : Option WatchEvent) :
    Decidable (freshStamps events state event) :=
  match event with
  | some (.wrote _ (some _)) => inferInstanceAs (Decidable (_ ∧ _))
  | some (.wrote _ none) | some (.loaded ..) | some (.started ..) | none => .isTrue trivial

section Histories

variable {path : Text} {events : List WatchEvent} {event : WatchEvent}

theorem lastView_snoc (path : Text) (events : List WatchEvent) (event : WatchEvent) :
    lastView path (events ++ [event]) = (event.view path).or (lastView path events) := by
  rw [lastView, List.filterMap_append, List.getLast?_append, lastView]
  cases isView : event.view path <;> simp [isView]

theorem lastLoad_snoc (events : List WatchEvent) (event : WatchEvent) :
    lastLoad (events ++ [event]) = event.load.or (lastLoad events) := by
  rw [lastLoad, List.filterMap_append, List.getLast?_append, lastLoad]
  cases isLoad : event.load <;> simp [isLoad]

theorem stamps_snoc (path : Text) (events : List WatchEvent) (event : WatchEvent) :
    stamps path (events ++ [event]) = stamps path events ++ (event.stamp path).toList := by
  rw [stamps, List.filterMap_append, stamps]
  cases isStamp : event.stamp path <;> simp [isStamp]

theorem tally_snoc (path : Text) (events : List WatchEvent) (event : WatchEvent) :
    tally path (events ++ [event]) = (tally path events).count path event := by
  rw [tally, List.foldl_append, List.foldl_cons, List.foldl_nil, tally]

theorem mem_stamps_append {stamp : Int} (member : stamp ∈ stamps path events)
    (more : List WatchEvent) : stamp ∈ stamps path (events ++ more) := by
  rw [stamps, List.filterMap_append]
  exact List.mem_append_left _ member

end Histories

/-! ## What a move can do -/

/-- A watcher which keeps what it knows of the file, and has not found it changed. -/
def KeepsTime (before after : Option ConfigWatcher) : Prop :=
  ∀ watcher ∈ after, ∃ earlier ∈ before, earlier.path = watcher.path ∧
    earlier.lastWriteTime = watcher.lastWriteTime ∧
    (earlier.phase = .found ↔ watcher.phase = .found)

theorem KeepsTime.rfl {watcher : Option ConfigWatcher} : KeepsTime watcher watcher :=
  fun watcher isWatcher => ⟨watcher, isWatcher, Eq.refl _, Eq.refl _, Iff.rfl⟩

/-- What a move does to the files, the manager and the watcher, by its event. -/
inductive Moves (cores : Nat) (outside : Option Text → Outside) (state : Watched) :
    Option WatchEvent → Watched → Prop where
  | quiet {next : Watched} (files : next.files = state.files)
      (manager : next.manager = state.manager) (watcher : KeepsTime state.watcher next.watcher)
      (terminated : next.terminated = false) : Moves cores outside state none next
  | wrote {path : Text} {file : Option File} {next : Watched}
      (files : next.files = fun other => if other = path then file else state.files other)
      (manager : next.manager = state.manager) (watcher : next.watcher = state.watcher)
      (terminated : next.terminated = false) :
      Moves cores outside state (some (.wrote path file)) next
  | called {path : Text} {before : ConfigManager} {next : Watched}
      (files : next.files = state.files) (loaders : before.loaders = state.manager.loaders)
      (hasValidator : before.hasValidator = state.manager.hasValidator)
      (hasLogger : before.hasLogger = state.manager.hasLogger)
      (manager : next.manager = (before.loadFile cores
        (outside ((state.files path).map File.text)) path).manager)
      (watcher : next.watcher = state.watcher) (terminated : next.terminated = false) :
      Moves cores outside state (some (.loaded path (state.files path) false)) next
  | started {watcher : ConfigWatcher} {next : Watched} (files : next.files = state.files)
      (manager : next.manager = state.manager) (isWatcher : next.watcher = some watcher)
      (kept : watcher.lastWriteTime = writeTime state.files watcher.path)
      (phase : watcher.phase = .head) (terminated : next.terminated = false) :
      Moves cores outside state (some (.started watcher.path (state.files watcher.path))) next
  | found {watcher : ConfigWatcher} {now : Nat} {next : Watched} (files : next.files = state.files)
      (manager : next.manager = state.manager) (isWatcher : state.watcher = some watcher)
      (phase : watcher.phase = .looking now) (present : writeTime state.files watcher.path ≠ 0)
      (differs : writeTime state.files watcher.path ≠ watcher.lastWriteTime)
      (stored : next.watcher = some { watcher with
        lastWriteTime := writeTime state.files watcher.path
        debounceUntil := now + 300
        phase := .found })
      (terminated : next.terminated = false) : Moves cores outside state none next
  | polled {watcher : ConfigWatcher} {next : Watched} (files : next.files = state.files)
      (isWatcher : state.watcher = some watcher) (phase : watcher.phase = .found)
      (manager : next.manager = (state.load cores outside watcher.path).manager)
      (after : ∃ later, later ≠ .found ∧ next.watcher = some { watcher with phase := later })
      (terminated : next.terminated = true ↔
        ∃ thrown, (state.load cores outside watcher.path).outcome = .error thrown) :
      Moves cores outside state (some (.loaded watcher.path (state.files watcher.path) true)) next

section Runs

variable {cores : Nat} {outside : Option Text → Outside} {state next : Watched}
  {event : Option WatchEvent}

theorem startWatcher_moves {watcher : ConfigWatcher} (alive : state.terminated = false)
    (known : state.watcher = some watcher ∨ watcher.running = false)
    (moved : state.startWatcher watcher = (event, next)) :
    Moves cores outside state event next := by
  rw [Watched.startWatcher] at moved
  split at moved <;> cases moved
  · rename_i running
    rcases known with isWatcher | notRunning
    · exact .quiet rfl rfl (isWatcher ▸ KeepsTime.rfl) alive
    · rw [notRunning] at running
      cases running
  · let started : ConfigWatcher := { watcher with
      running := true
      lastWriteTime := writeTime state.files watcher.path
      debounceUntil := 0
      phase := .head }
    exact @Moves.started _ _ _ started _ rfl rfl rfl rfl rfl alive

theorem startWatching_moves {interval : Nat} (alive : state.terminated = false)
    (moved : state.startWatching interval = (event, next)) :
    Moves cores outside state event next := by
  rw [Watched.startWatching] at moved
  split at moved
  · cases moved
    exact .quiet rfl rfl .rfl alive
  · refine startWatcher_moves alive ?_ moved
    cases state.watcher with
    | none => exact .inr rfl
    | some watcher => exact .inl rfl

/-- What the calling thread is in the middle of is no matter. -/
theorem Moves.of_caller {caller : Caller}
    (moves : Moves cores outside { state with caller } event next) :
    Moves cores outside state event next := by
  cases moves with
  | quiet files manager watcher terminated => exact .quiet files manager watcher terminated
  | wrote files manager watcher terminated => exact .wrote files manager watcher terminated
  | called files loaders hasValidator hasLogger manager watcher terminated =>
      exact .called files loaders hasValidator hasLogger manager watcher terminated
  | started files manager isWatcher kept phase terminated =>
      exact .started files manager isWatcher kept phase terminated
  | found files manager isWatcher phase present differs stored terminated =>
      exact .found files manager isWatcher phase present differs stored terminated
  | polled files isWatcher phase manager after terminated =>
      exact .polled files isWatcher phase manager after terminated

theorem turn_moves {watcher : ConfigWatcher} (alive : state.terminated = false)
    (isWatcher : state.watcher = some watcher)
    (moved : state.turn cores outside watcher = some (event, next)) :
    Moves cores outside state event next := by
  have keeps (later : WatchPhase) (same : watcher.phase = .found ↔ later = .found) :
      KeepsTime state.watcher (some { watcher with phase := later }) := by
    rintro - ⟨⟩
    exact ⟨watcher, isWatcher, rfl, rfl, same⟩
  rw [Watched.turn] at moved
  split at moved
  · rename_i phase
    cases moved
    refine .quiet rfl rfl (keeps _ ?_) alive
    split <;> simp [phase]
  · rename_i phase
    split at moved <;> cases moved <;> exact .quiet rfl rfl (keeps _ (by simp [phase])) alive
  · rename_i now phase
    dsimp only at moved
    split at moved <;> cases moved
    · rename_i differs
      exact .found rfl rfl isWatcher phase differs.1 differs.2 rfl alive
    · exact .quiet rfl rfl (keeps _ (by simp [phase])) alive
  · rename_i phase
    cases moved
    cases outcome : (state.load cores outside watcher.path).outcome with
    | ok result =>
        refine .polled rfl isWatcher phase rfl ⟨_, by simp, rfl⟩ ?_
        simp [Watched.sleep, alive, outcome]
    | error thrown => exact .polled rfl isWatcher phase rfl ⟨_, by simp, rfl⟩ (by simp [outcome])
  · rename_i wake phase
    split at moved <;> cases moved
    exact .quiet rfl rfl (keeps _ (by simp [phase])) alive
  · cases moved

/-- All that a move can do. -/
theorem step_moves {choice : WatchChoice}
    (moved : state.step cores outside choice = some (event, next)) :
    state.terminated = false ∧ Moves cores outside state event next := by
  have alive : state.terminated = false := by
    cases isTerminated : state.terminated with
    | false => rfl
    | true => simp [Watched.step, isTerminated] at moved
  refine ⟨alive, ?_⟩
  rw [Watched.step.eq_def, if_neg (by simp [alive])] at moved
  cases choice with dsimp only at moved
  | tick elapsed =>
      cases moved
      exact .quiet rfl rfl .rfl alive
  | write path file =>
      cases moved
      exact .wrote rfl rfl rfl alive
  | initializeWith path enableWatch interval =>
      split at moved <;> cases moved
      let before : ConfigManager := { state.manager with configPath := path }
      have loaders : before.loaders = state.manager.loaders := rfl
      exact .called rfl loaders rfl rfl rfl rfl alive
  | proceed =>
      split at moved
      · have stillAlive : Watched.terminated { state with caller := .free } = false := alive
        exact (startWatching_moves stillAlive (Option.some.inj moved)).of_caller
      · cases moved
  | reload =>
      split at moved
      · split at moved <;> cases moved
        · exact .quiet rfl rfl .rfl alive
        · exact .called rfl rfl rfl rfl rfl rfl alive
      · cases moved
  | startWatching interval =>
      split at moved
      · exact startWatching_moves alive (Option.some.inj moved)
      · cases moved
  | stopWatching =>
      split at moved <;> cases moved
      rw [Watched.stopWatching]
      split
      · rename_i watcher isWatcher
        split
        · refine .quiet rfl rfl ?_ alive
          rintro - ⟨⟩
          exact ⟨watcher, isWatcher, rfl, rfl, Iff.rfl⟩
        · exact .quiet rfl rfl .rfl alive
      · exact .quiet rfl rfl .rfl alive
  | join =>
      split at moved
      · split at moved <;> cases moved
        exact .quiet rfl rfl .rfl alive
      · cases moved
  | turn =>
      obtain ⟨watcher, isWatcher, turned⟩ := Option.bind_eq_some_iff.mp moved
      exact turn_moves alive isWatcher turned

end Runs

end Foxhttp.Config
