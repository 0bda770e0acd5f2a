import Mathlib.Data.List.Basic
import Mathlib.Data.List.GetD
import Liters.Foundation.Steps

/-! # The registry of the manager

`register_push`, `register_follow`, `unregister` and `shutdown` (`manager.rs`), called from any
number of threads. A registration is checked against the registry and spawns its worker under the
registry lock, in one step. `unregister` and `shutdown` take entries out of the registry under the
lock, and only then tell the workers to stop and wait for them; a worker runs on until it looks. -/

namespace Liters

namespace Manager

/-- A worker thread: the path it was registered with, whether it was told to stop, and whether it
runs. -/
structure Worker where
  dbPath : String
  shutdown : Bool := false
  live : Bool := true
deriving DecidableEq

/-- A thread that calls the manager: the workers it has still to tell, and those it has still to
wait for. -/
inductive Caller where
  | idle
  | closing (toSignal toJoin : List Nat)
deriving DecidableEq

/-- The registry, with the worker of each entry, all workers that were ever spawned, and the
callers. -/
structure Registry where
  entries : List (String × Nat) := []
  workers : List Worker := []
  caller : Nat → Caller := fun _ => .idle

/-- Why a registration is refused. -/
inductive RegisterError where
  | idRegistered (id : String)
  | pathRegistered (dbPath id : String)
  | spawn
deriving DecidableEq

section
variable (canonicalize : String → Option String)

/-- The canonical path of an entry; one that does not resolve stands for itself. -/
def canonical (dbPath : String) : String := (canonicalize dbPath).getD dbPath

/-- The canonical path of a worker's entry. -/
def Registry.canonicalOf (r : Registry) (n : Nat) : Option String :=
  (r.workers[n]?).map fun w => canonical canonicalize w.dbPath

/-- `insert_and_spawn`; whether the thread could be spawned is not up to the manager. -/
def Registry.insertAndSpawn (r : Registry) (id dbPath : String) (spawned : Bool) :
    Except RegisterError Registry :=
  if (r.entries.lookup id).isSome then .error (.idRegistered id)
  else
    match r.entries.find? fun e =>
        r.canonicalOf canonicalize e.2 = some (canonical canonicalize dbPath) with
    | some other => .error (.pathRegistered dbPath other.1)
    | none =>
        if spawned then .ok { r with
          entries := (id, r.workers.length) :: r.entries, workers := r.workers ++ [{ dbPath }] }
        else .error .spawn

/-- What the threads do. -/
inductive RegistryAct where
  | register (id dbPath : String) (spawned : Bool)
  /-- Take the entry out of the registry. -/
  | unregister (i : Nat) (id : String)
  /-- Take all entries out. -/
  | shutdown (i : Nat)
  | signal (i : Nat)
  | join (i : Nat)
  /-- A worker sees that it was told to stop. -/
  | exit (n : Nat)
  | panic (n : Nat)
deriving DecidableEq

/-- Change a worker. -/
def Registry.onWorker (r : Registry) (n : Nat) (f : Worker → Worker) : List Worker :=
  r.workers.modify n f

/-- A caller moves. -/
def Registry.moved (r : Registry) (i : Nat) (c : Caller) : Nat → Caller :=
  Function.update r.caller i c

/-- One step; a registration that is refused changes nothing. -/
def Registry.step (r : Registry) : RegistryAct → Option Registry
  | .register id dbPath spawned =>
      match r.insertAndSpawn canonicalize id dbPath spawned with
      | .ok r' => some r'
      | .error _ => some r
  | .unregister i id =>
      if r.caller i = .idle then
        match r.entries.lookup id with
        | none => some r
        | some n => some { r with
            entries := r.entries.filter (fun e => e.1 ≠ id), caller :=
              r.moved i (.closing [n] [n]) }
      else none
  | .shutdown i =>
      if r.caller i = .idle then some { r with
        entries := [], caller :=
          r.moved i (.closing (r.entries.map Prod.snd) (r.entries.map Prod.snd)) }
      else none
  | .signal i =>
      match r.caller i with
      | .closing (n :: toSignal) toJoin => some { r with
          workers := r.onWorker n fun w => { w with shutdown := true }
          caller := r.moved i (.closing toSignal toJoin) }
      | _ => none
  | .join i =>
      match r.caller i with
      | .closing [] [] => some { r with caller := r.moved i .idle }
      | .closing [] (n :: toJoin) =>
          -- blocks until the thread has ended
          if (r.workers[n]?).any fun w => w.live then none
          else some { r with caller := r.moved i (.closing [] toJoin) }
      | _ => none
  | .exit n =>
      if (r.workers[n]?).any fun w => w.live && w.shutdown then
        some { r with workers := r.onWorker n fun w => { w with live := false } }
      else none
  | .panic n =>
      if (r.workers[n]?).any fun w => w.live then
        some { r with workers := r.onWorker n fun w => { w with live := false } }
      else none

/-- No two workers run on one file. -/
def Registry.OneWorker (r : Registry) : Prop :=
  ∀ (m n : Nat) (w w' : Worker) (file : String), r.workers[m]? = some w → r.workers[n]? = some w' →
    w.live = true → w'.live = true → canonicalize w.dbPath = some file →
      canonicalize w'.dbPath = some file → m = n

/-- No registration is made for a file while a worker on that file runs that is no longer in the
registry. -/
def Registry.Settled (r : Registry) : RegistryAct → Prop
  | .register _ dbPath _ => ∀ x ∈ r.workers.zipIdx, x.1.live = true →
      canonical canonicalize x.1.dbPath = canonical canonicalize dbPath → ∃ e ∈ r.entries, e.2 = x.2
  | _ => True

instance (r : Registry) : (a : RegistryAct) → Decidable (r.Settled canonicalize a)
  | .register _ dbPath _ => inferInstanceAs (Decidable (∀ x ∈ r.workers.zipIdx, x.1.live = true →
      canonical canonicalize x.1.dbPath = canonical canonicalize dbPath →
        ∃ e ∈ r.entries, e.2 = x.2))
  | .unregister _ _ => inferInstanceAs (Decidable True)
  | .shutdown _ => inferInstanceAs (Decidable True)
  | .signal _ => inferInstanceAs (Decidable True)
  | .join _ => inferInstanceAs (Decidable True)
  | .exit _ => inferInstanceAs (Decidable True)
  | .panic _ => inferInstanceAs (Decidable True)

/-! ## What the steps keep -/

/-- Live workers on one canonical path are one. -/
def Registry.Unique (r : Registry) : Prop :=
  ∀ (m n : Nat) (w w' : Worker), r.workers[m]? = some w → r.workers[n]? = some w' → w.live = true →
    w'.live = true → canonical canonicalize w.dbPath = canonical canonicalize w'.dbPath → m = n

variable {canonicalize}

/-- Stopping a worker or telling it to stop keeps the live ones apart. -/
theorem Registry.Unique.onWorker {r r' : Registry} (h : r.Unique canonicalize) {k : Nat}
    {f : Worker → Worker} (hf : ∀ w, (f w).dbPath = w.dbPath ∧ ((f w).live = true → w.live = true))
    (hr : r'.workers = r.onWorker k f) : r'.Unique canonicalize := by
  have hold : ∀ (m : Nat) (w : Worker), r'.workers[m]? = some w → ∃ w₀, r.workers[m]? = some w₀ ∧
      w.dbPath = w₀.dbPath ∧ (w.live = true → w₀.live = true) := by
    intro m w hm
    rw [hr, Registry.onWorker, List.getElem?_modify] at hm
    obtain ⟨w₀, hw₀, heq⟩ := Option.map_eq_some_iff.mp hm
    refine ⟨w₀, hw₀, ?_⟩
    rw [← heq]
    split
    · exact hf w₀
    · exact ⟨rfl, id⟩
  intro m n w w' hm hn hw hw' hfile
  obtain ⟨v, hv, hpath, hlive⟩ := hold m w hm
  obtain ⟨v', hv', hpath', hlive'⟩ := hold n w' hn
  rw [hpath, hpath'] at hfile
  exact h m n v v' hv hv' (hlive hw) (hlive' hw') hfile

/-- A registration that succeeds finds no entry with its canonical path. -/
theorem insertAndSpawn_eq_ok {r r' : Registry} {id dbPath : String} {spawned : Bool}
    (h : r.insertAndSpawn canonicalize id dbPath spawned = .ok r') :
    (∀ e ∈ r.entries, r.canonicalOf canonicalize e.2 ≠ some (canonical canonicalize dbPath)) ∧
      r'.workers = r.workers ++ [({ dbPath := dbPath } : Worker)] := by
  unfold Registry.insertAndSpawn at h
  split at h
  · cases h
  · split at h
    · cases h
    · rename_i hnone
      split at h
      · cases h
        refine ⟨fun e he heq => ?_, rfl⟩
        have := List.find?_eq_none.mp hnone e he
        exact this (decide_eq_true heq)
      · cases h

/-- A registration for a file without a live worker outside the registry keeps the live workers
apart. -/
theorem Registry.Unique.insertAndSpawn {r r' : Registry} (h : r.Unique canonicalize)
    {id dbPath : String} {spawned : Bool}
    (hsettled : r.Settled canonicalize (.register id dbPath spawned))
    (hok : r.insertAndSpawn canonicalize id dbPath spawned = .ok r') : r'.Unique canonicalize := by
  obtain ⟨hfree, hworkers⟩ := insertAndSpawn_eq_ok hok
  -- whoever runs on the path would be in the registry, which has nobody on it
  have hnone : ∀ (m : Nat) (w : Worker), r.workers[m]? = some w → w.live = true →
      canonical canonicalize w.dbPath ≠ canonical canonicalize dbPath := by
    intro m w hm hlive heq
    obtain ⟨e, hmem, hnumber⟩ := hsettled (w, m) (List.mem_zipIdx_iff_getElem?.mpr hm) hlive heq
    refine hfree e hmem ?_
    rw [hnumber, Registry.canonicalOf, hm, Option.map_some, heq]
  have hcases : ∀ (m : Nat) (w : Worker), r'.workers[m]? = some w →
      r.workers[m]? = some w ∨ m = r.workers.length ∧ w = { dbPath := dbPath } := by
    intro m w hm
    rw [hworkers] at hm
    rcases Nat.lt_or_ge m r.workers.length with hlt | hge
    · rw [List.getElem?_append_left hlt] at hm
      exact .inl hm
    · rw [List.getElem?_append_right hge] at hm
      have hzero : m - r.workers.length = 0 := by
        have hlt := (List.getElem?_eq_some_iff.mp hm).1
        rw [List.length_singleton] at hlt
        omega
      rw [hzero] at hm
      exact .inr ⟨by omega, (Option.some.inj hm).symm⟩
  intro m n w w' hm hn hw hw' hfile
  rcases hcases m w hm with hm | ⟨rfl, rfl⟩
  · rcases hcases n w' hn with hn | ⟨rfl, rfl⟩
    · exact h m n w w' hm hn hw hw' hfile
    · exact absurd hfile (hnone m w hm hw)
  · rcases hcases n w' hn with hn | ⟨rfl, rfl⟩
    · exact absurd hfile.symm (hnone n w' hn hw')
    · rfl

/-- **A step keeps the live workers apart.** -/
theorem Registry.Unique.step {r r' : Registry} (h : r.Unique canonicalize) {a : RegistryAct}
    (hsettled : r.Settled canonicalize a) (hstep : r.step canonicalize a = some r') :
    r'.Unique canonicalize := by
  cases a with
  | register id dbPath spawned =>
      simp only [Registry.step] at hstep
      split at hstep
      · rename_i r'' hok
        cases hstep
        exact h.insertAndSpawn hsettled hok
      · cases hstep
        exact h
  | unregister i id =>
      simp only [Registry.step] at hstep
      split at hstep
      · split at hstep
        · cases hstep
          exact h
        · cases hstep
          exact h
      · cases hstep
  | shutdown i =>
      simp only [Registry.step] at hstep
      split at hstep
      · cases hstep
        exact h
      · cases hstep
  | signal i =>
      simp only [Registry.step] at hstep
      split at hstep
      · cases hstep
        exact h.onWorker (f := fun w => { w with shutdown := true }) (fun w => ⟨rfl, id⟩) rfl
      · cases hstep
  | join i =>
      simp only [Registry.step] at hstep
      split at hstep
      · cases hstep
        exact h
      · split at hstep
        · cases hstep
        · cases hstep
          exact h
      · cases hstep
  | exit n =>
      simp only [Registry.step] at hstep
      split at hstep
      · cases hstep
        exact h.onWorker (f := fun w => { w with live := false })
          (fun w => ⟨rfl, fun hlive => by cases hlive⟩) rfl
      · cases hstep
  | panic n =>
      simp only [Registry.step] at hstep
      split at hstep
      · cases hstep
        exact h.onWorker (f := fun w => { w with live := false })
          (fun w => ⟨rfl, fun hlive => by cases hlive⟩) rfl
      · cases hstep

end

/-- **One live worker per database**, in every run in which no registration is made for a file while
a worker on that file runs that is no longer in the registry. -/
theorem settledRun_oneWorker (canonicalize : String → Option String) {r : Registry}
    (h : Reaches (Registry.step canonicalize) (Registry.Settled canonicalize) {} r) :
    r.OneWorker canonicalize := by
  have hunique : r.Unique canonicalize := by
    refine Reaches.invariant (P := Registry.Unique canonicalize) ?_ ?_ h
    · intro m n w w' hm
      cases hm
    · intro s a s' hs hsettled hstep
      exact hs.step hsettled hstep
  intro m n w w' file hm hn hw hw' hfile hfile'
  refine hunique m n w w' hm hn hw hw' ?_
  rw [canonical, canonical, hfile, hfile', Option.getD_some, Option.getD_some]

/-- A registration, its removal up to the end of the worker, and another one. -/
def reregister : List RegistryAct :=
  [.register "a" "/data/app.db" true, .unregister 0 "a", .signal 0, .exit 0, .join 0,
    .register "b" "/data/../data/app.db" true]

/-- Two spellings of one path. -/
def twoSpellings (dbPath : String) : Option String :=
  if dbPath = "/data/app.db" ∨ dbPath = "/data/../data/app.db" then some "/data/app.db" else none

/-- Registering again under another spelling, once the first worker is gone. -/
theorem settledRun_oneWorker_reregister :
    ∃ r, takeSteps (Registry.step twoSpellings) {} reregister = some r ∧ r.workers.length = 2 ∧
      r.OneWorker twoSpellings := by
  have hrun : (takeSteps (Registry.step twoSpellings) {} reregister).isSome := by decide
  obtain ⟨r, hr⟩ := Option.isSome_iff_exists.mp hrun
  have hallowed : AllowedSteps (Registry.step twoSpellings) (Registry.Settled twoSpellings) {}
      reregister := by
    decide
  have htwo : ∀ r ∈ takeSteps (Registry.step twoSpellings) {} reregister, r.workers.length = 2 := by
    decide
  exact ⟨r, hr, htwo r hr,
    settledRun_oneWorker twoSpellings (reaches_of_takeSteps .refl hallowed hr)⟩

/-- A registration under another id while the removal of the first one waits for its worker. -/
def registerBehindRemoval : List RegistryAct :=
  [.register "a" "/data/app.db" true, .unregister 0 "a", .register "b" "/data/app.db" true]

/-- Then two workers run on the file. -/
theorem two_workers_behind_removal :
    ∃ r, Reaches (Registry.step twoSpellings) anyStep {} r ∧ ¬ r.OneWorker twoSpellings := by
  have hrun : (takeSteps (Registry.step twoSpellings) {} registerBehindRemoval).isSome := by decide
  obtain ⟨r, hr⟩ := Option.isSome_iff_exists.mp hrun
  have hworkers : ∀ r ∈ takeSteps (Registry.step twoSpellings) {} registerBehindRemoval,
      r.workers = [{ dbPath := "/data/app.db" }, { dbPath := "/data/app.db" }] := by decide
  refine ⟨r, reaches_of_takeSteps .refl allowedSteps_any hr, fun hone => ?_⟩
  have hfirst : r.workers[0]? = some { dbPath := "/data/app.db" } := by rw [hworkers r hr]; rfl
  have hsecond : r.workers[1]? = some { dbPath := "/data/app.db" } := by rw [hworkers r hr]; rfl
  have := hone 0 1 _ _ "/data/app.db" hfirst hsecond rfl rfl (by decide) (by decide)
  cases this

end Manager

end Liters
