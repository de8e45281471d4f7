import Foxhttp.Config.Watcher

/-!
# What a watched manager has seen

A write between the look at the time and the load costs a load more and loses
nothing, while a write before `start` takes its time is never looked at. Whatever a
load throws leaves the thread and terminates the program.
-/

namespace Foxhttp.Config

open Foxhttp.Library

variable {cores : Nat} {outside : Option Text → Outside} {events : List WatchEvent}
  {state next : Watched} {event : Option WatchEvent}

/-! ## The last version -/

/-- What is known of the files and of the watched one, when times are fresh. -/
structure Tracks (events : List WatchEvent) (state : Watched) : Prop where
  stamped : ∀ {path file}, state.files path = some file →
    file.stamp ≠ 0 ∧ file.stamp ∈ stamps path events
  kept : ∀ {watcher}, state.watcher = some watcher →
    watcher.lastWriteTime = 0 ∨ watcher.lastWriteTime ∈ stamps watcher.path events
  seen : ∀ {watcher file}, state.watcher = some watcher → watcher.phase ≠ .found →
    state.files watcher.path = some file → watcher.lastWriteTime = file.stamp →
      ∃ view, lastView watcher.path events = some view ∧ view.file = some file

namespace Tracks

theorem writeTime_kept (tracks : Tracks events state) (path : Text) :
    writeTime state.files path = 0 ∨ writeTime state.files path ∈ stamps path events := by
  rw [writeTime]
  cases present : state.files path with
  | none => exact .inl rfl
  | some file => exact .inr (tracks.stamped present).2

theorem quiet (tracks : Tracks events state) (files : next.files = state.files)
    (watcher : KeepsTime state.watcher next.watcher) : Tracks events next where
  stamped present := tracks.stamped (files ▸ present)
  kept isWatcher := by
    obtain ⟨earlier, isEarlier, path, time, -⟩ := watcher _ isWatcher
    exact path ▸ time ▸ tracks.kept isEarlier
  seen isWatcher rests present same := by
    obtain ⟨earlier, isEarlier, path, time, phase⟩ := watcher _ isWatcher
    rw [← path] at present ⊢
    exact tracks.seen isEarlier (mt phase.mp rests) (files ▸ present) (time.trans same)

theorem wrote (tracks : Tracks events state) {path : Text} {file : Option File}
    (fresh : freshStamps events state (some (.wrote path file)))
    (files : next.files = fun other => if other = path then file else state.files other)
    (watcher : next.watcher = state.watcher) : Tracks (events ++ [.wrote path file]) next where
  stamped := by
    intro other found present
    simp only [files] at present
    split at present
    · rename_i same
      subst same present
      refine ⟨fresh.1, ?_⟩
      rw [stamps_snoc]
      simp [WatchEvent.stamp]
    · exact ⟨(tracks.stamped present).1, mem_stamps_append (tracks.stamped present).2 _⟩
  kept isWatcher := (tracks.kept (watcher ▸ isWatcher)).imp_right (mem_stamps_append · _)
  seen := by
    intro found seen isWatcher rests present same
    rw [watcher] at isWatcher
    simp only [files] at present
    rw [lastView_snoc, WatchEvent.view, Option.none_or]
    split at present
    · -- The time kept is one the file had before this write.
      rename_i isPath
      subst present
      obtain ⟨notDefault, notBefore⟩ := fresh
      rcases tracks.kept isWatcher with none | before
      · exact absurd (same.symm.trans none) notDefault
      · exact absurd (isPath ▸ same ▸ before) notBefore
    · exact tracks.seen isWatcher rests present same

/-- A look at the file which makes no event of its own in the files. -/
theorem viewed (tracks : Tracks events state) {path : Text} (byLoad : Bool) {viewing : WatchEvent}
    (view : ∀ other, viewing.view other =
      if path = other then some ⟨state.files path, byLoad⟩ else none)
    (files : next.files = state.files)
    (watcher : ∀ watcher, next.watcher = some watcher → watcher.path = path ∨
      state.watcher = some watcher)
    (kept : ∀ watcher, next.watcher = some watcher → watcher.lastWriteTime = 0 ∨
      watcher.lastWriteTime ∈ stamps watcher.path events) :
    Tracks (events ++ [viewing]) next where
  stamped present := by
    have before := tracks.stamped (files ▸ present)
    exact ⟨before.1, mem_stamps_append before.2 _⟩
  kept isWatcher := (kept _ isWatcher).imp_right (mem_stamps_append · _)
  seen := by
    intro found seen isWatcher rests present same
    rw [files] at present
    rw [lastView_snoc, view]
    by_cases isPath : path = found.path
    · refine ⟨⟨state.files path, byLoad⟩, by simp [isPath], ?_⟩
      exact isPath ▸ present
    · rw [if_neg isPath, Option.none_or]
      rcases watcher found isWatcher with samePath | isBefore
      · exact absurd samePath.symm isPath
      · exact tracks.seen isBefore rests present same

/-- Every move keeps it. -/
theorem moved (tracks : Tracks events state) (moves : Moves cores outside state event next)
    (fresh : freshStamps events state event) : Tracks (events ++ event.toList) next := by
  cases moves with
  | quiet files manager watcher terminated =>
      simpa using tracks.quiet files watcher
  | wrote files manager watcher terminated => exact tracks.wrote fresh files watcher
  | called files loaders hasValidator hasLogger manager watcher terminated =>
      refine tracks.viewed true (fun other => rfl) files (fun found isWatcher =>
        .inr (watcher ▸ isWatcher)) fun found isWatcher => tracks.kept (watcher ▸ isWatcher)
  | started files manager isWatcher kept phase terminated =>
      refine tracks.viewed false (fun other => rfl) files ?_ ?_
      · intro found isFound
        cases isWatcher.symm.trans isFound
        exact .inl rfl
      · intro found isFound
        cases isWatcher.symm.trans isFound
        exact kept ▸ tracks.writeTime_kept _
  | @found watcher now _ files manager isWatcher phase present differs stored terminated =>
      simp only [Option.toList_none, List.append_nil]
      refine ⟨fun present => tracks.stamped (files ▸ present), ?_, ?_⟩
      · intro found isFound
        cases stored.symm.trans isFound
        exact tracks.writeTime_kept watcher.path
      · intro found file isFound rests
        cases stored.symm.trans isFound
        exact absurd rfl rests
  | @polled watcher _ files isWatcher phase manager after terminated =>
      obtain ⟨later, -, isLater⟩ := after
      refine tracks.viewed true (fun other => rfl) files ?_ ?_
      · intro found isFound
        cases isLater.symm.trans isFound
        exact .inl rfl
      · intro found isFound
        cases isLater.symm.trans isFound
        exact (tracks.kept isWatcher : watcher.lastWriteTime = 0 ∨ _)

end Tracks

theorem tracks_runs (run : (watching cores outside).Runs freshStamps events state) :
    Tracks events state := by
  refine run.invariant ?_ ?_
  · rintro state ⟨manager, rfl⟩
    refine ⟨?_, ?_, ?_⟩
    · rintro path file ⟨⟩
    · rintro watcher ⟨⟩
    · rintro watcher file ⟨⟩
  · intro events state choice event next _ tracks transition fresh
    exact tracks.moved (step_moves transition).2 fresh

/-! ## The document in place -/

/-- The document which a file proposes is the one in place. -/
def InPlace (cores : Nat) (outside : Option Text → Outside) (manager : ConfigManager)
    (path : Text) (file : Option File) : Prop :=
  ∀ merged, manager.Proposes cores (outside (file.map File.text)) path merged →
    manager.document = merged

theorem inPlace_load (before : ConfigManager) (path : Text) (file : Option File) :
    InPlace cores outside
      (before.loadFile cores (outside (file.map File.text)) path).manager path file := by
  intro merged proposes
  have earlier := (ConfigManager.proposes_congr
    (ConfigManager.sameCallbacks_loadFile cores _ before path) merged).mp proposes
  exact (ConfigManager.loadFile_installs earlier).document

/-- The last load has put in place what it was proposed. -/
theorem inPlace_runs {guard : System.Guard Watched WatchEvent}
    (run : (watching cores outside).Runs guard events state) {path : Text} {file : Option File}
    (isLast : lastLoad events = some (path, file)) :
    InPlace cores outside state.manager path file := by
  induction run generalizing path file with
  | initial valid => cases isLast
  | move prior transition _ inductionHypothesis =>
      cases (step_moves transition).2 with
      | quiet files manager watcher terminated =>
          exact manager ▸ inductionHypothesis (by simpa using isLast)
      | wrote files manager watcher terminated =>
          rw [Option.toList_some, lastLoad_snoc] at isLast
          exact manager ▸ inductionHypothesis isLast
      | called files loaders hasValidator hasLogger manager watcher terminated =>
          rw [Option.toList_some, lastLoad_snoc] at isLast
          cases isLast
          exact manager ▸ inPlace_load _ path _
      | started files manager isWatcher kept phase terminated =>
          rw [Option.toList_some, lastLoad_snoc] at isLast
          exact manager ▸ inductionHypothesis isLast
      | found files manager isWatcher phase present differs stored terminated =>
          exact manager ▸ inductionHypothesis (by simpa using isLast)
      | polled files isWatcher phase manager after terminated =>
          rw [Option.toList_some, lastLoad_snoc] at isLast
          cases isLast
          exact manager ▸ inPlace_load _ _ _

/-- When the watcher is not about to load and keeps the time which the file has, the
file as it is now is the last version seen, by a load or by the start of the watch.
If it was loaded and no other file since, what it proposes is in place. -/
theorem watched_file_is_seen {watcher : ConfigWatcher} {file : File}
    (run : (watching cores outside).Runs freshStamps events state)
    (isWatcher : state.watcher = some watcher) (rests : watcher.phase ≠ .found)
    (present : state.files watcher.path = some file)
    (kept : watcher.lastWriteTime = file.stamp) :
    (∃ byLoad, lastView watcher.path events = some ⟨some file, byLoad⟩) ∧
      (lastLoad events = some (watcher.path, some file) →
        InPlace cores outside state.manager watcher.path (some file)) := by
  obtain ⟨⟨viewed, byLoad⟩, isView, rfl⟩ := (tracks_runs run).seen isWatcher rests present kept
  exact ⟨⟨byLoad, isView⟩, inPlace_runs run⟩

/-- The watcher sleeps, or the program has terminated. -/
def PassOver (state : Watched) : Prop :=
  state.terminated = true ∨
    ∃ watcher wake, state.watcher = some watcher ∧ watcher.phase = .asleep wake

theorem passOver_sleep (state : Watched) (watcher : ConfigWatcher) :
    PassOver (state.sleep watcher) :=
  .inr ⟨_, _, rfl, rfl⟩

section Pass

variable {watcher : ConfigWatcher} {file : File}

/-- The thread alone, from the head of the loop up to the look at the file. -/
theorem follow_to_look (alive : state.terminated = false) (isWatcher : state.watcher = some watcher)
    (head : watcher.phase = .head) (running : watcher.running = true)
    (isOver : watcher.debounceUntil ≤ state.now) (rest : List WatchChoice) :
    (watching cores outside).follow System.anyMove events state (.turn :: .turn :: rest) =
      (watching cores outside).follow System.anyMove events
        { state with watcher := some { watcher with phase := .looking state.now } } rest := by
  have awakes : (watching cores outside).step state .turn =
      some (none, { state with watcher := some { watcher with phase := .awake } }) := by
    simp [watching, Watched.step, alive, isWatcher, Watched.turn, head, running]
  have looks : (watching cores outside).step
      { state with watcher := some { watcher with phase := .awake } } .turn =
      some (none, { state with watcher := some { watcher with phase := .looking state.now } }) := by
    simp [watching, Watched.step, alive, Watched.turn, isOver]
  rw [System.follow_cons awakes trivial, System.follow_cons looks trivial]
  simp

/-- A load by the watcher ends its pass. -/
theorem load_ends_pass (alive : state.terminated = false) (isWatcher : state.watcher = some watcher)
    (found : watcher.phase = .found) :
    ∃ last, (watching cores outside).step state .turn =
        some (some (.loaded watcher.path (state.files watcher.path) true), last) ∧
      PassOver last := by
  simp only [watching, Watched.step, alive, Bool.false_eq_true, if_false, isWatcher,
    Option.bind_some, Watched.turn, found]
  refine ⟨_, rfl, ?_⟩
  split
  · exact passOver_sleep _ _
  · exact .inl rfl

/-- A pass which starts past the debounce and in which nobody else moves ends with
the file as it is now seen last, whatever happened before. -/
theorem undisturbed_pass_sees (run : (watching cores outside).Runs freshStamps events state)
    (alive : state.terminated = false) (isWatcher : state.watcher = some watcher)
    (head : watcher.phase = .head) (running : watcher.running = true)
    (isOver : watcher.debounceUntil ≤ state.now) (present : state.files watcher.path = some file) :
    ∃ turns after last byLoad,
      (watching cores outside).follow System.anyMove events state
        (List.replicate turns .turn) = some (after, last) ∧ PassOver last ∧
      lastView watcher.path after = some ⟨some file, byLoad⟩ := by
  have tracks := tracks_runs run
  have time : writeTime state.files watcher.path = file.stamp := by rw [writeTime, present]
  have notDefault : file.stamp ≠ 0 := (tracks.stamped present).1
  let looking : Watched :=
    { state with watcher := some { watcher with phase := .looking state.now } }
  by_cases kept : watcher.lastWriteTime = file.stamp
  · obtain ⟨⟨viewed, byLoad⟩, isView, rfl⟩ :=
      tracks.seen isWatcher (by simp [head]) present kept
    let slept := looking.sleep { watcher with phase := .looking state.now }
    have sleeps : (watching cores outside).step looking .turn = some (none, slept) := by
      simp [watching, looking, slept, Watched.step, alive, Watched.turn, time, kept]
    refine ⟨3, events, slept, byLoad, ?_, passOver_sleep _ _, isView⟩
    refine (follow_to_look alive isWatcher head running isOver [.turn]).trans ?_
    rw [System.follow_cons sleeps trivial, Option.toList_none, List.append_nil, System.follow]
  · -- The time differs, so that it is stored and the file loaded.
    let loading : ConfigWatcher :=
      { watcher with
        lastWriteTime := file.stamp, debounceUntil := state.now + 300, phase := .found }
    let found : Watched := { state with watcher := some loading }
    have stores : (watching cores outside).step looking .turn = some (none, found) := by
      simp [watching, looking, found, loading, Watched.step, alive, Watched.turn, time,
        notDefault, Ne.symm kept]
    obtain ⟨last, loads, passOver⟩ : ∃ last, (watching cores outside).step found .turn =
        some (some (.loaded watcher.path (state.files watcher.path) true), last) ∧
          PassOver last :=
      @load_ends_pass cores outside found loading alive rfl rfl
    refine ⟨4, events ++ [.loaded watcher.path (state.files watcher.path) true], last, true,
      ?_, passOver, ?_⟩
    · refine (follow_to_look alive isWatcher head running isOver [.turn, .turn]).trans ?_
      rw [System.follow_cons stores trivial, System.follow_cons loads trivial, System.follow,
        Option.toList_none, List.append_nil, Option.toList_some]
    · rw [lastView_snoc, WatchEvent.view, if_pos rfl, Option.some_or, present]

end Pass

/-- Foreign code which takes no text for a document. -/
def plainOutside (text : Option Text) : Outside where
  contents _ := text
  parse _ := none
  loadYaml _ := none
  load _ _ := .ok none
  validate _ := .ok (true, [])
  log _ := .ok ()

/-- A file is there, the watch starts, and the file is written again. -/
def rewriting : List WatchChoice :=
  [.write "a.json".toList (some ⟨1, []⟩), .initializeWith "a.json".toList true 2000, .proceed,
    .write "a.json".toList (some ⟨2, []⟩)]

theorem runs_unwatched (cores : Nat) (outside : Option Text → Outside)
    (guard : System.Guard Watched WatchEvent) : (watching cores outside).Runs guard [] {} :=
  .initial ⟨{}, rfl⟩

theorem rewritten_file_is_seen :
    ∃ reached, (watching 4 plainOutside).follow freshStamps [] {}
        (rewriting ++ [.turn, .turn, .turn, .turn]) = some reached ∧
      ((∃ byLoad, lastView "a.json".toList reached.1 = some ⟨some ⟨2, []⟩, byLoad⟩) ∧
        (lastLoad reached.1 = some ("a.json".toList, some ⟨2, []⟩) →
          InPlace 4 plainOutside reached.2.manager "a.json".toList (some ⟨2, []⟩))) :=
  (runs_unwatched _ _ _).reaches rfl fun run =>
    watched_file_is_seen run rfl (by decide) rfl rfl

theorem rewritten_file_is_passed :
    ∃ reached, (watching 4 plainOutside).follow freshStamps [] {} rewriting = some reached ∧
      ∃ turns after last byLoad,
        (watching 4 plainOutside).follow System.anyMove reached.1 reached.2
          (List.replicate turns .turn) = some (after, last) ∧ PassOver last ∧
        lastView "a.json".toList after = some ⟨some ⟨2, []⟩, byLoad⟩ :=
  (runs_unwatched _ _ _).reaches rfl fun run =>
    undisturbed_pass_sees run rfl rfl rfl rfl (by decide) rfl

/-! ## How often the watcher loads -/

/-- The loads which are still to come from the writes so far. -/
def owed (files : Text → Option File) (watcher : ConfigWatcher) : Nat :=
  (if writeTime files watcher.path ≠ 0 ∧ writeTime files watcher.path ≠ watcher.lastWriteTime
    then 1 else 0) + if watcher.phase = .found then 1 else 0

theorem owed_congr {files : Text → Option File} {first second : ConfigWatcher}
    (path : first.path = second.path) (time : first.lastWriteTime = second.lastWriteTime)
    (phase : first.phase = .found ↔ second.phase = .found) :
    owed files first = owed files second := by
  simp only [owed, path, time, phase]

theorem writeTime_of_ne {files : Text → Option File} {path other : Text} (elsewhere : path ≠ other)
    (file : Option File) :
    writeTime (fun other => if other = path then file else files other) other =
      writeTime files other := by
  rw [writeTime, if_neg (Ne.symm elsewhere), writeTime]

/-- Writes pay for loads. -/
def Paid (events : List WatchEvent) (state : Watched) : Prop :=
  ∀ watcher, state.watcher = some watcher →
    (tally watcher.path events).loads + owed state.files watcher ≤
      (tally watcher.path events).writes

theorem paid_moved (paid : Paid events state) (moves : Moves cores outside state event next) :
    Paid (events ++ event.toList) next := by
  intro watcher isWatcher
  cases moves with
  | quiet files manager keeps terminated =>
      obtain ⟨earlier, isEarlier, path, time, phase⟩ := keeps _ isWatcher
      rw [Option.toList_none, List.append_nil, files, ← owed_congr path time phase, ← path]
      exact paid earlier isEarlier
  | @wrote path file _ files manager same terminated =>
      have before := paid watcher (same ▸ isWatcher)
      rw [Option.toList_some, tally_snoc, files]
      by_cases isPath : path = watcher.path
      · subst isPath
        cases file with
        | none =>
            -- A removal is not waited for: the default time is no time to load.
            have removed : writeTime (fun other => if other = watcher.path then none else
                state.files other) watcher.path = 0 := by
              rw [writeTime, if_pos rfl]
            rw [Tally.count]
            simp only [owed, removed] at before ⊢
            split at before <;> simp <;> omega
        | some file =>
            rw [Tally.count, if_pos rfl]
            dsimp only
            simp only [owed] at before ⊢
            split at before <;> split <;> omega
      · have elsewhere : owed (fun other => if other = path then file else state.files other)
            watcher = owed state.files watcher := by
          simp only [owed, writeTime_of_ne isPath]
        rw [elsewhere]
        cases file with
        | none => exact before
        | some file =>
            rw [Tally.count, if_neg isPath]
            exact before
  | called files loaders hasValidator hasLogger manager same terminated =>
      rw [Option.toList_some, tally_snoc, files, Tally.count, if_neg (by simp)]
      exact paid watcher (same ▸ isWatcher)
  | started files manager isStarted kept phase terminated =>
      cases isStarted.symm.trans isWatcher
      rw [Option.toList_some, tally_snoc, files, Tally.count, if_pos rfl, owed, kept, phase]
      simp
  | @found earlier now _ files manager isEarlier phase present differs stored terminated =>
      cases stored.symm.trans isWatcher
      have before := paid earlier isEarlier
      rw [owed, if_pos ⟨present, differs⟩, if_neg (by simp [phase])] at before
      simpa [files, owed] using before
  | @polled earlier _ files isEarlier phase manager after terminated =>
      obtain ⟨later, notFound, isLater⟩ := after
      cases isLater.symm.trans isWatcher
      have before := paid earlier isEarlier
      rw [Option.toList_some, tally_snoc, files, Tally.count, if_pos ⟨rfl, rfl⟩]
      simp only [owed, phase, if_true, if_neg notFound] at before ⊢
      omega

/-- Since the start of the watch, the watcher has not loaded the file more often than
it was written, whatever the times of the writes. Removals do not count. -/
theorem watcher_loads_le_writes {guard : System.Guard Watched WatchEvent}
    {watcher : ConfigWatcher} (run : (watching cores outside).Runs guard events state)
    (isWatcher : state.watcher = some watcher) :
    (tally watcher.path events).loads ≤ (tally watcher.path events).writes := by
  have paid : Paid events state := by
    refine run.invariant ?_ ?_
    · rintro state ⟨manager, rfl⟩ watcher ⟨⟩
    · intro events state choice event next _ paid transition _
      exact paid_moved paid (step_moves transition).2
  exact Nat.le_trans (Nat.le_add_right _ _) (paid watcher isWatcher)

theorem rewritten_file_is_loaded_once :
    ∃ reached, (watching 4 plainOutside).follow freshStamps [] {}
        (rewriting ++ [.turn, .turn, .turn, .turn]) = some reached ∧
      (tally "a.json".toList reached.1).loads ≤ (tally "a.json".toList reached.1).writes :=
  (runs_unwatched _ _ _).reaches rfl fun run => watcher_loads_le_writes run rfl

/-! ## Loads which throw -/

/-- The last thing that happened is a load by the watcher of a file with a section
which cannot be read. -/
def EndsInThrow (cores : Nat) (outside : Option Text → Outside) (manager : ConfigManager)
    (events : List WatchEvent) : Prop :=
  ∃ before path file, events = before ++ [.loaded path file true] ∧
    ∃ merged, manager.Proposes cores (outside (file.map File.text)) path merged ∧
      ¬ WellTyped merged

theorem polled_throws_iff {path : Text} {file : Option File} {manager : ConfigManager}
    (calm : ∀ text, (outside text).NeverThrows) :
    (∃ thrown, (manager.loadFile cores (outside (file.map File.text)) path).outcome =
        .error thrown) ↔
      EndsInThrow cores outside
        (manager.loadFile cores (outside (file.map File.text)) path).manager
        (events ++ [.loaded path file true]) := by
  have same :=
    ConfigManager.sameCallbacks_loadFile cores (outside (file.map File.text)) manager path
  rw [ConfigManager.loadFile_throws_iff (calm _)]
  constructor
  · rintro ⟨merged, proposes, untyped⟩
    exact ⟨events, path, file, rfl, merged, (ConfigManager.proposes_congr same merged).mpr proposes,
      untyped⟩
  · rintro ⟨before, path, file, split, merged, proposes, untyped⟩
    obtain ⟨-, last⟩ := List.append_inj' split rfl
    cases List.singleton_inj.mp last
    exact ⟨merged, (ConfigManager.proposes_congr same merged).mp proposes, untyped⟩

theorem not_endsInThrow_snoc {manager : ConfigManager} {last : WatchEvent}
    (notPolled : ∀ path file, last ≠ .loaded path file true) :
    ¬ EndsInThrow cores outside manager (events ++ [last]) := by
  rintro ⟨before, path, file, split, -⟩
  obtain ⟨-, same⟩ := List.append_inj' split rfl
  exact notPolled path file (List.singleton_inj.mp same)

/-- When no callback throws, the program has terminated exactly when the watcher has
just loaded a file which it proposes and of which a section cannot be read. -/
theorem terminated_iff_endsInThrow {guard : System.Guard Watched WatchEvent}
    (calm : ∀ text, (outside text).NeverThrows)
    (run : (watching cores outside).Runs guard events state) :
    state.terminated = true ↔ EndsInThrow cores outside state.manager events := by
  induction run with
  | initial valid =>
      obtain ⟨manager, rfl⟩ := valid
      refine iff_of_false (by simp) ?_
      rintro ⟨before, path, file, split, -⟩
      simp at split
  | move prior transition _ known =>
      obtain ⟨alive, moves⟩ := step_moves transition
      cases moves with
      | quiet files manager watcher terminated =>
          rw [Option.toList_none, List.append_nil, manager, ← known]
          simp [terminated, alive]
      | wrote files manager watcher terminated =>
          exact iff_of_false (by simp [terminated]) (not_endsInThrow_snoc (by simp))
      | called files loaders hasValidator hasLogger manager watcher terminated =>
          exact iff_of_false (by simp [terminated]) (not_endsInThrow_snoc (by simp))
      | started files manager isWatcher kept phase terminated =>
          exact iff_of_false (by simp [terminated]) (not_endsInThrow_snoc (by simp))
      | found files manager isWatcher phase present differs stored terminated =>
          rw [Option.toList_none, List.append_nil, manager, ← known]
          simp [terminated, alive]
      | polled files isWatcher phase manager after terminated =>
          rw [terminated, manager]
          exact polled_throws_iff calm

/-- A file which comes after the start of the watch, with a text for a number. -/
theorem deep_file_terminates :
    ∃ reached, (watching 4 fun _ => ConfigManager.deepOutside).follow freshStamps [] {}
        [.initializeWith "a.json".toList true 2000, .startWatching 2000,
          .write "a.json".toList (some ⟨1, []⟩), .turn, .turn, .turn, .turn] = some reached ∧
      reached.2.terminated = true ∧
      (reached.2.terminated = true ↔
        EndsInThrow 4 (fun _ => ConfigManager.deepOutside) reached.2.manager reached.1) :=
  (runs_unwatched _ _ _).reaches rfl fun run => ⟨rfl, terminated_iff_endsInThrow
    (fun _ => ⟨fun _ _ => ⟨none, rfl⟩, fun _ => ⟨(true, []), rfl⟩, fun _ => rfl⟩) run⟩

end Foxhttp.Config
