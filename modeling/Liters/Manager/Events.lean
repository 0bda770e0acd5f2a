import Mathlib.Data.List.Basic
import Mathlib.Data.List.Count
import Mathlib.Logic.Function.Basic
import Liters.Foundation.Steps

/-! # The event stream of one database

The entry of a database in the manager (`manager.rs`): its state, the events that are queued under
the same lock that changes the state, and `drain_events`, which hands the queued events to the
observer without holding the lock. Any number of threads work on the entry: its worker, control
calls, and the observer's callbacks, which may themselves call control methods. Each critical
section under the entry lock is one step of one thread. -/

namespace Liters

namespace Manager

/-- What the application sees. -/
inductive DbState where
  | idle
  | working
  | backingOff (until' : Int) (attempt : Nat)
  | failed
  | sleeping
deriving DecidableEq

/-- What the worker has to do. -/
inductive Ctrl where
  | running
  | sleeping
  | shutdown
deriving DecidableEq

/-- The kind of a registration. -/
inductive DbRole where
  | push
  | follow
deriving DecidableEq

/-- Events of one database. -/
inductive ManagerEvent where
  | stateChanged (state : DbState)
  | pushCompleted (txid : Nat)
  | error (message : String) (transient : Bool)
deriving DecidableEq

/-- What the entry lock protects. Session tokens are numbered as they are made. -/
structure EntryShared where
  ctrl : Ctrl := .running
  nudged : Bool := false
  session : Nat := 0
  tokens : Nat := 1
  cancelled : List Nat := []
  state : DbState := .idle
  position : Option Nat := none
  lastError : Option String := none
  lastActivity : Option Int := none
  pendingEvents : List ManagerEvent := []
  emitting : Bool := false
deriving DecidableEq

/-- The critical sections on an entry. -/
inductive EntryOp where
  | transitionRunning (new : DbState)
  | recordError (message : String) (transient : Bool)
  | pushCompleted (txid : Nat) (now : Int)
  | sleep
  | resume
  | pushNow
  | syncNow
deriving DecidableEq

namespace EntryShared

/-- `transition_running`: control states always win. -/
def transitionRunning (g : EntryShared) (new : DbState) : EntryShared :=
  if g.ctrl ≠ .running ∨ g.state = new then g
  else { g with state := new, pendingEvents := g.pendingEvents ++ [.stateChanged new] }

/-- `record_error`. -/
def recordError (g : EntryShared) (message : String) (transient : Bool) : EntryShared :=
  { g with
    lastError := some message, pendingEvents := g.pendingEvents ++ [.error message transient] }

/-- A push has succeeded. -/
def pushCompleted (g : EntryShared) (txid : Nat) (now : Int) : EntryShared :=
  { g with
    position := some txid, lastActivity := some now, lastError := none
    pendingEvents := g.pendingEvents ++ [.pushCompleted txid] }

/-- `sleep_entry`. -/
def sleep (g : EntryShared) : EntryShared :=
  if g.ctrl ≠ .running then g
  else { g with
    ctrl := .sleeping, cancelled := g.session :: g.cancelled, state := .sleeping
    pendingEvents := g.pendingEvents ++ [.stateChanged .sleeping] }

/-- `resume_entry`, which queues no event. -/
def resume (g : EntryShared) : EntryShared :=
  match g.ctrl with
  | .shutdown => g
  | .running => if g.state = .failed then { g with nudged := true } else g
  | .sleeping => { g with
      ctrl := .running, session := g.tokens, tokens := g.tokens + 1, nudged := true,
      state := .idle }

/-- `push_now`. -/
def pushNow (g : EntryShared) (role : DbRole) : EntryShared :=
  if role ≠ .push ∨ g.ctrl ≠ .running then g else { g with nudged := true }

/-- `sync_now`. -/
def syncNow (g : EntryShared) (role : DbRole) : EntryShared :=
  if role ≠ .follow ∨ g.ctrl ≠ .running then g
  else { g with
    cancelled := g.session :: g.cancelled, session := g.tokens, tokens := g.tokens + 1,
    nudged := true }

/-- What an operation does. -/
def after (g : EntryShared) (role : DbRole) : EntryOp → EntryShared
  | .transitionRunning new => g.transitionRunning new
  | .recordError message transient => g.recordError message transient
  | .pushCompleted txid now => g.pushCompleted txid now
  | .sleep => g.sleep
  | .resume => g.resume
  | .pushNow => g.pushNow role
  | .syncNow => g.syncNow role

/-- Whether the caller calls `drain_events` afterwards. -/
def drains (g : EntryShared) : EntryOp → Bool
  | .transitionRunning _ => true
  | .recordError _ _ => true
  | .pushCompleted _ _ => true
  | .sleep => g.ctrl = .running
  | .resume => false
  | .pushNow => false
  | .syncNow => false

end EntryShared

/-- The calls that a thread is in, as far as the entry is concerned. -/
inductive Frame where
  /-- Something was queued, and `drain_events` is to be called. -/
  | owes
  /-- At the top of the loop of `drain_events`. -/
  | drain
  /-- An event was taken from the queue. -/
  | emit (ev : ManagerEvent)
  /-- In the observer's callback. -/
  | callback (ev : ManagerEvent)
  /-- The callback has returned; `emitting` is still set. -/
  | clear
deriving DecidableEq

/-- An event is being delivered. -/
def Frame.busy : Frame → Bool
  | .emit _ => true
  | .callback _ => true
  | .clear => true
  | .owes => false
  | .drain => false

/-- What a thread does. -/
inductive ThreadAct where
  | op (o : EntryOp)
  | callDrain
  | takeNext
  | deliver
  | finish
  | clear
deriving DecidableEq

/-- The entry and the threads. The history behind it: the events in the order in which they were
queued, taken from the queue and delivered, whether `sleep` was called behind the last `resume`, and
whether `resume` was called since the last change of state was queued. -/
structure Entry (ι : Type) where
  role : DbRole
  g : EntryShared := {}
  stack : ι → List Frame := fun _ => []
  enqueued : List ManagerEvent := []
  taken : List ManagerEvent := []
  delivered : List ManagerEvent := []
  slept : Bool := false
  resumed : Bool := false

section
variable {ι : Type} [DecidableEq ι]

/-- The calls of a thread change. -/
def Entry.moved (w : Entry ι) (i : ι) (frames : List Frame) : ι → List Frame :=
  Function.update w.stack i frames

/-- The events that an operation queues. -/
def EntryShared.queued (g g' : EntryShared) : List ManagerEvent :=
  g'.pendingEvents.drop g.pendingEvents.length

/-- Whether a change of state is among some events. -/
def changesState (evs : List ManagerEvent) : Bool := evs.any fun ev => match ev with
  | .stateChanged _ => true
  | _ => false

/-- An operation by a thread whose calls become `frames`. -/
def Entry.operated (w : Entry ι) (i : ι) (o : EntryOp) (frames : List Frame) : Entry ι :=
  { w with
    g := w.g.after w.role o
    stack := w.moved i frames
    enqueued := w.enqueued ++ w.g.queued (w.g.after w.role o)
    slept := if o = .sleep then true else if o = .resume then false else w.slept
    resumed := if o = .resume then true
      else if changesState (w.g.queued (w.g.after w.role o)) then false else w.resumed }

/-- One step of a thread. Operations are made by code that is in no call on the entry, or in a
callback. -/
def Entry.step (w : Entry ι) : ι × ThreadAct → Option (Entry ι)
  | (i, .op o) =>
      match w.stack i with
      -- an operation of the worker or of a control call; one that queues an event owes a drain
      | .owes :: frames => some (w.operated i o (.owes :: frames))
      | .callback ev :: frames =>
          some (w.operated i o (if w.g.drains o then .owes :: .callback ev :: frames
            else .callback ev :: frames))
      | [] => some (w.operated i o (if w.g.drains o then [.owes] else []))
      | _ => none
  | (i, .callDrain) =>
      -- drain_events is entered, also from inside a callback
      match w.stack i with
      | .owes :: frames => some { w with stack := w.moved i (.drain :: frames) }
      | .callback ev :: frames =>
          some { w with stack := w.moved i (.drain :: .callback ev :: frames) }
      | [] => some { w with stack := w.moved i [.drain] }
      | _ => none
  | (i, .takeNext) =>
      -- one turn of its loop: leave if another thread emits, or take the next event
      match w.stack i with
      | .drain :: frames =>
          if w.g.emitting then some { w with stack := w.moved i frames }
          else
            match w.g.pendingEvents with
            | [] => some { w with stack := w.moved i frames }
            | ev :: rest => some { w with
                g := { w.g with pendingEvents := rest, emitting := true }
                taken := w.taken ++ [ev]
                stack := w.moved i (.emit ev :: frames) }
      | _ => none
  | (i, .deliver) =>
      -- the callback runs without the lock
      match w.stack i with
      | .emit ev :: frames => some { w with
          delivered := w.delivered ++ [ev], stack := w.moved i (.callback ev :: frames) }
      | _ => none
  | (i, .finish) =>
      -- the callback returns
      match w.stack i with
      | .callback _ :: frames => some { w with stack := w.moved i (.clear :: frames) }
      | _ => none
  | (i, .clear) =>
      -- the lock is taken again and emitting cleared
      match w.stack i with
      | .clear :: frames => some { w with
          g := { w.g with emitting := false }, stack := w.moved i (.drain :: frames) }
      | _ => none

/-! ### What a step can do -/

/-- Two stacks of calls deliver the same. -/
structure SameWork (frames frames' : List Frame) : Prop where
  busy : frames'.countP Frame.busy = frames.countP Frame.busy
  emits : ∀ ev, Frame.emit ev ∈ frames' ↔ Frame.emit ev ∈ frames

/-- What a step can do. -/
inductive Stepped (w : Entry ι) (i : ι) : Entry ι → Prop where
  | operated (o : EntryOp) (frames : List Frame) (hwork : SameWork (w.stack i) frames)
      (hkeeps : w.stack i ≠ [] → frames ≠ []) (hdrains : w.g.drains o → frames ≠ []) :
      Stepped w i (w.operated i o frames)
  | moved (frames : List Frame) (hwork : SameWork (w.stack i) frames)
      (hkeeps : frames ≠ [] ∨ w.g.emitting ∨ w.g.pendingEvents = []) :
      Stepped w i { w with stack := w.moved i frames }
  | taken (ev : ManagerEvent) (rest : List ManagerEvent) (frames : List Frame)
      (hstack : w.stack i = .drain :: frames)
      (hidle : w.g.emitting = false) (hqueue : w.g.pendingEvents = ev :: rest) :
      Stepped w i { w with
        g := { w.g with pendingEvents := rest, emitting := true }
        taken := w.taken ++ [ev]
        stack := w.moved i (.emit ev :: frames) }
  | delivered (ev : ManagerEvent) (frames : List Frame) (hstack : w.stack i = .emit ev :: frames) :
      Stepped w i { w with
        delivered := w.delivered ++ [ev], stack := w.moved i (.callback ev :: frames) }
  | cleared (frames : List Frame) (hstack : w.stack i = .clear :: frames) :
      Stepped w i { w with
        g := { w.g with emitting := false }, stack := w.moved i (.drain :: frames) }

omit [DecidableEq ι] in
/-- A stack does the same work as itself. -/
theorem SameWork.refl (frames : List Frame) : SameWork frames frames := ⟨rfl, fun _ => Iff.rfl⟩

omit [DecidableEq ι] in
/-- A callback returns. -/
theorem SameWork.finish (ev : ManagerEvent) (frames : List Frame) :
    SameWork (.callback ev :: frames) (.clear :: frames) := by
  refine ⟨?_, fun ev' => ?_⟩
  · rw [List.countP_cons_of_pos rfl, List.countP_cons_of_pos rfl]
  · simp

/-- Every step is of one of these kinds. -/
theorem step_stepped {w w' : Entry ι} {i : ι} {a : ThreadAct} (h : w.step (i, a) = some w') :
    Stepped w i w' := by
  cases a with
  -- whoever operates may owe a drain afterwards
  | op o =>
      simp only [Entry.step] at h
      split at h
      case h_1 frames hstack =>
        cases h
        exact .operated o _ (hstack ▸ .refl _) (by simp) (by simp)
      case h_2 ev frames hstack =>
        cases h
        refine .operated o _ ?_ (fun _ => by split <;> simp) (fun _ => by split <;> simp)
        rw [hstack]
        split
        · exact ⟨by simp [Frame.busy], by simp⟩
        · exact .refl _
      case h_3 hstack =>
        cases h
        refine .operated o _ ?_ (fun hne => absurd hstack hne) (fun hdrains => by simp [hdrains])
        rw [hstack]
        split
        · exact ⟨by simp [Frame.busy], by simp⟩
        · exact .refl _
      case h_4 => cases h
  -- entering drain_events keeps the work at hand
  | callDrain =>
      simp only [Entry.step] at h
      split at h
      case h_1 frames hstack =>
        cases h
        exact .moved _ (hstack ▸ ⟨by simp [Frame.busy], by simp⟩) (.inl (by simp))
      case h_2 ev frames hstack =>
        cases h
        exact .moved _ (hstack ▸ ⟨by simp [Frame.busy], by simp⟩) (.inl (by simp))
      case h_3 hstack =>
        cases h
        exact .moved _ (hstack ▸ ⟨by simp [Frame.busy], by simp⟩) (.inl (by simp))
      case h_4 => cases h
  -- the loop of drain_events stops for one of two reasons, or takes an event
  | takeNext =>
      simp only [Entry.step] at h
      split at h
      case h_1 frames hstack =>
        have hwork : SameWork (w.stack i) frames := hstack ▸ ⟨by simp [Frame.busy], by simp⟩
        split at h
        case isTrue hemitting =>
          cases h
          exact .moved _ hwork (.inr (.inl hemitting))
        case isFalse hidle =>
          split at h
          case h_1 hqueue =>
            cases h
            exact .moved _ hwork (.inr (.inr hqueue))
          case h_2 ev rest hqueue =>
            cases h
            exact .taken ev rest frames hstack (by simpa using hidle) hqueue
      case h_2 => cases h
  | deliver =>
      simp only [Entry.step] at h
      split at h
      case h_1 ev frames hstack =>
        cases h
        exact .delivered ev frames hstack
      case h_2 => cases h
  | finish =>
      simp only [Entry.step] at h
      split at h
      case h_1 ev frames hstack =>
        cases h
        exact .moved _ (hstack ▸ .finish ev frames) (.inl (by simp))
      case h_2 => cases h
  | clear =>
      simp only [Entry.step] at h
      split at h
      case h_1 frames hstack =>
        cases h
        exact .cleared frames hstack
      case h_2 => cases h

/-! ### What an operation does -/

/-- The states that some events report. -/
def stateChanges (evs : List ManagerEvent) : List DbState := evs.filterMap fun ev => match ev with
  | .stateChanged state => some state
  | _ => none

/-- The state that was reported last. -/
def lastState (evs : List ManagerEvent) : Option DbState := (stateChanges evs).getLast?

omit [DecidableEq ι] in
/-- The last state of a log is the last one of its later part, if that has any. -/
theorem lastState_append (evs evs' : List ManagerEvent) :
    lastState (evs ++ evs') = (lastState evs').or (lastState evs) := by
  simp [lastState, stateChanges, List.getLast?_append]

/-- What an operation does to what the lock protects. -/
structure OpSpec (g : EntryShared) (o : EntryOp) (g' : EntryShared) (evs : List ManagerEvent) :
    Prop where
  queue : g'.pendingEvents = g.pendingEvents ++ evs
  emitting : g'.emitting = g.emitting
  drains : evs ≠ [] → g.drains o = true
  ctrl : g.ctrl ≠ .shutdown → g'.ctrl ≠ .shutdown
  asleep : g'.ctrl = .sleeping → (g.ctrl = .sleeping ∧ g'.state = g.state) ∨ g'.state = .sleeping
  sleeps : o = .sleep → g.ctrl ≠ .shutdown → g'.ctrl = .sleeping
  wakes : g.ctrl = .sleeping → o ≠ .resume → g'.ctrl = .sleeping
  reports : (changesState evs = true ∧ lastState evs = some g'.state) ∨
    (changesState evs = false ∧ lastState evs = none ∧ (g'.state = g.state ∨ o = .resume))

omit [DecidableEq ι] in
/-- An operation that neither controls nor changes the state. -/
theorem OpSpec.of_same {g g' : EntryShared} {o : EntryOp} {evs : List ManagerEvent}
    (hqueue : g'.pendingEvents = g.pendingEvents ++ evs) (hemitting : g'.emitting = g.emitting)
    (hdrains : evs ≠ [] → g.drains o = true) (hctrl : g'.ctrl = g.ctrl)
    (hstate : g'.state = g.state) (hsleep : o = .sleep → g.ctrl ≠ .running)
    (hevs : changesState evs = false) (hlast : lastState evs = none) :
    OpSpec g o g' evs where
  queue := hqueue
  emitting := hemitting
  drains := hdrains
  ctrl := fun h => hctrl ▸ h
  asleep := fun h => .inl ⟨hctrl ▸ h, hstate⟩
  sleeps := by
    intro ho hnot
    rw [hctrl]
    cases hc : g.ctrl with
    | running => exact absurd hc (hsleep ho)
    | sleeping => rfl
    | shutdown => exact absurd hc hnot
  wakes := fun h _ => hctrl ▸ h
  reports := .inr ⟨hevs, hlast, .inl hstate⟩

omit [DecidableEq ι] in
/-- Every operation does what it should. -/
theorem after_spec (g : EntryShared) (role : DbRole) (o : EntryOp) :
    ∃ evs, OpSpec g o (g.after role o) evs := by
  cases o with
  | transitionRunning new =>
      -- only a running entry that changes its state tells it
      simp only [EntryShared.after, EntryShared.transitionRunning]
      split
      · exact ⟨[], .of_same (by simp) rfl (by simp) rfl rfl (by simp) rfl rfl⟩
      case isFalse h =>
        have hrunning : g.ctrl = .running := by
          by_contra hnot
          exact h (.inl hnot)
        refine ⟨[.stateChanged new], rfl, rfl, fun _ => rfl, id, ?_, by simp, ?_, .inl ⟨rfl, rfl⟩⟩
        · intro hc
          cases hrunning.symm.trans hc
        · intro hc
          cases hrunning.symm.trans hc
  | recordError message transient =>
      exact ⟨[.error message transient], .of_same rfl rfl (fun _ => rfl) rfl rfl (by simp) rfl rfl⟩
  | pushCompleted txid now =>
      exact ⟨[.pushCompleted txid], .of_same rfl rfl (fun _ => rfl) rfl rfl (by simp) rfl rfl⟩
  -- sleep: the state is told once
  | sleep =>
      simp only [EntryShared.after, EntryShared.sleep]
      split
      case isTrue h => exact ⟨[], .of_same (by simp) rfl (by simp) rfl rfl (fun _ => h) rfl rfl⟩
      case isFalse h =>
        have hrunning : g.ctrl = .running := by
          by_contra hnot
          exact h hnot
        exact ⟨[.stateChanged .sleeping], rfl, rfl,
          fun _ => by simp [EntryShared.drains, hrunning], by simp,
          fun _ => .inr rfl, fun _ _ => rfl, fun _ _ => rfl, .inl ⟨rfl, rfl⟩⟩
  -- resume: only an entry that sleeps wakes
  | resume =>
      simp only [EntryShared.after, EntryShared.resume]
      split
      · exact ⟨[], .of_same (by simp) rfl (by simp) rfl rfl (by simp) rfl rfl⟩
      · split
        · exact ⟨[], .of_same (by simp) rfl (by simp) rfl rfl (by simp) rfl rfl⟩
        · exact ⟨[], .of_same (by simp) rfl (by simp) rfl rfl (by simp) rfl rfl⟩
      · exact ⟨[], by simp, rfl, by simp, by simp, by simp, by simp, fun _ hnot => absurd rfl hnot,
          .inr ⟨rfl, rfl, .inr rfl⟩⟩
  | pushNow =>
      simp only [EntryShared.after, EntryShared.pushNow]
      split
      · exact ⟨[], .of_same (by simp) rfl (by simp) rfl rfl (by simp) rfl rfl⟩
      · exact ⟨[], .of_same (by simp) rfl (by simp) rfl rfl (by simp) rfl rfl⟩
  | syncNow =>
      simp only [EntryShared.after, EntryShared.syncNow]
      split
      · exact ⟨[], .of_same (by simp) rfl (by simp) rfl rfl (by simp) rfl rfl⟩
      · exact ⟨[], .of_same (by simp) rfl (by simp) rfl rfl (by simp) rfl rfl⟩

omit [DecidableEq ι] in
/-- What is read off the queues is what the operation queued. -/
theorem OpSpec.queued_eq {g g' : EntryShared} {o : EntryOp} {evs : List ManagerEvent}
    (h : OpSpec g o g' evs) :
    g.queued g' = evs := by
  rw [EntryShared.queued, h.queue, List.drop_left]

/-! ### One delivery at a time -/

/-- `emitting` says whether a thread delivers, and only one does. -/
def Single (stack : ι → List Frame) (emitting : Bool) : Prop :=
  if emitting then ∃ i, (stack i).countP Frame.busy = 1 ∧ ∀ j, j ≠ i →
    (stack j).countP Frame.busy = 0
  else ∀ i, (stack i).countP Frame.busy = 0

/-- A thread whose calls deliver the same as before. -/
theorem Single.congr {stack : ι → List Frame} {emitting : Bool} {i : ι} {frames : List Frame}
    (h : Single stack emitting) (hbusy : frames.countP Frame.busy = (stack i).countP Frame.busy) :
    Single (Function.update stack i frames) emitting := by
  have hcount : ∀ j, (Function.update stack i frames j).countP Frame.busy =
      (stack j).countP Frame.busy := by
    intro j
    by_cases hj : j = i
    · subst hj
      rw [Function.update_self, hbusy]
    · rw [Function.update_of_ne hj]
  simpa only [Single, hcount] using h

/-- A thread that takes an event. -/
theorem Single.start {stack : ι → List Frame} {i : ι} {frames : List Frame} (h : Single stack false)
    (hbusy : frames.countP Frame.busy = 1) : Single (Function.update stack i frames) true := by
  refine ⟨i, by rw [Function.update_self, hbusy], fun j hj => ?_⟩
  rw [Function.update_of_ne hj]
  exact h j

omit [DecidableEq ι] in
/-- The thread that delivers is the only one. -/
theorem Single.only {stack : ι → List Frame} {emitting : Bool} {i : ι} (h : Single stack emitting)
    (hbusy : 0 < (stack i).countP Frame.busy) :
    emitting = true ∧ (stack i).countP Frame.busy = 1 ∧ ∀ j, j ≠ i →
    (stack j).countP Frame.busy = 0 := by
  cases emitting with
  | false => exact absurd (h i) (Nat.pos_iff_ne_zero.mp hbusy)
  | true =>
      obtain ⟨k, hone, hothers⟩ := h
      have hik : i = k := by
        by_contra hne
        exact absurd (hothers i hne) (Nat.pos_iff_ne_zero.mp hbusy)
      subst hik
      exact ⟨rfl, hone, hothers⟩

/-- A thread that has delivered its event. -/
theorem Single.stop {stack : ι → List Frame} {emitting : Bool} {i : ι} {frames : List Frame}
    (h : Single stack emitting)
    (hbusy : (stack i).countP Frame.busy = frames.countP Frame.busy + 1) :
    Single (Function.update stack i frames) false := by
  obtain ⟨-, hone, hothers⟩ := h.only (i := i) (by omega)
  intro j
  by_cases hj : j = i
  · subst hj
    rw [Function.update_self]
    omega
  · rw [Function.update_of_ne hj]
    exact hothers j hj

omit [DecidableEq ι] in
/-- A stack that delivers an event is busy. -/
theorem busy_of_emit {ev : ManagerEvent} {frames : List Frame} (h : Frame.emit ev ∈ frames) :
    0 < frames.countP Frame.busy :=
  List.countP_pos_iff.mpr ⟨_, h, rfl⟩

/-! ### The invariant -/

/-- What holds of an entry at any time. -/
structure Inv (w : Entry ι) : Prop where
  single : Single w.stack w.g.emitting
  queue : w.enqueued = w.taken ++ w.g.pendingEvents
  inHand : ∀ i ev, Frame.emit ev ∈ w.stack i → w.taken = w.delivered ++ [ev]
  noneInHand : (∀ i ev, Frame.emit ev ∉ w.stack i) → w.taken = w.delivered
  someone : w.g.pendingEvents ≠ [] → ∃ i, w.stack i ≠ []
  ctrl : w.g.ctrl ≠ .shutdown
  asleep : w.g.ctrl = .sleeping → w.g.state = .sleeping
  slept : w.slept = true → w.g.ctrl = .sleeping
  mirrors : w.resumed = false → ∀ state, lastState w.enqueued = some state → w.g.state = state

/-- Which frames are on the stacks when one of them changes. -/
theorem mem_moved {w : Entry ι} {i j : ι} {frames : List Frame} {f : Frame}
    (h : f ∈ w.moved i frames j) :
    (j = i ∧ f ∈ frames) ∨ (j ≠ i ∧ f ∈ w.stack j) := by
  by_cases hj : j = i
  · subst hj
    rw [Entry.moved, Function.update_self] at h
    exact .inl ⟨rfl, h⟩
  · rw [Entry.moved, Function.update_of_ne hj] at h
    exact .inr ⟨hj, h⟩

/-- The events that are in hand do not change with the calls. -/
theorem emit_mem_moved {w : Entry ι} {i : ι} {frames : List Frame}
    (hwork : SameWork (w.stack i) frames) (j : ι) (ev : ManagerEvent) :
    Frame.emit ev ∈ w.moved i frames j ↔ Frame.emit ev ∈ w.stack j := by
  by_cases hj : j = i
  · subst hj
    rw [Entry.moved, Function.update_self]
    exact hwork.emits ev
  · rw [Entry.moved, Function.update_of_ne hj]

/-- The moved caller has its new stack. -/
theorem moved_self {w : Entry ι} {i : ι} {frames : List Frame} : w.moved i frames i = frames :=
  Function.update_self ..

/-- A stack that is not empty belongs to someone. -/
theorem exists_moved_self {w : Entry ι} {i : ι} {frames : List Frame} (h : frames ≠ []) :
    ∃ j, w.moved i frames j ≠ [] :=
  ⟨i, by rwa [moved_self]⟩

/-- A thread other than the one that moves has its calls. -/
theorem exists_moved {w : Entry ι} {i : ι} {frames : List Frame}
    (hkeeps : w.stack i ≠ [] → frames ≠ []) (h : ∃ j, w.stack j ≠ []) :
    ∃ j, w.moved i frames j ≠ [] := by
  obtain ⟨j, hj⟩ := h
  refine ⟨j, ?_⟩
  by_cases hij : j = i
  · subst hij
    rw [moved_self]
    exact hkeeps hj
  · rwa [Entry.moved, Function.update_of_ne hij]

omit [DecidableEq ι] in
/-- The invariant holds of a fresh entry. -/
theorem inv_start (role : DbRole) : Inv ({ role := role } : Entry ι) where
  single := fun _ => rfl
  queue := rfl
  inHand := fun _ _ h => by cases h
  noneInHand := fun _ => rfl
  someone := fun h => absurd rfl h
  ctrl := fun h => by cases h
  asleep := fun h => by cases h
  slept := fun h => by cases h
  mirrors := fun _ _ h => by cases h

/-- An operation keeps the invariant. -/
theorem Inv.operated {w : Entry ι} {i : ι} {o : EntryOp} {frames : List Frame} (h : Inv w)
    (hwork : SameWork (w.stack i) frames) (hkeeps : w.stack i ≠ [] → frames ≠ [])
    (hdrains : w.g.drains o → frames ≠ []) : Inv (w.operated i o frames) := by
  obtain ⟨evs, hspec⟩ := after_spec w.g w.role o
  have hqueued := hspec.queued_eq
  have hemits := emit_mem_moved hwork
  refine
    { single := ?_, queue := ?_, inHand := ?_, noneInHand := ?_, someone := ?_,
      ctrl := hspec.ctrl h.ctrl, asleep := ?_, slept := ?_, mirrors := ?_ }
  · -- one emitter at a time
    show Single (Function.update w.stack i frames) (w.g.after w.role o).emitting
    rw [hspec.emitting]
    exact h.single.congr hwork.busy
  · -- no event is lost or queued twice
    show w.enqueued ++ w.g.queued (w.g.after w.role o) =
      w.taken ++ (w.g.after w.role o).pendingEvents
    rw [hqueued, hspec.queue, h.queue, List.append_assoc]
  · -- the event in hand is the last one taken
    intro j ev hmem
    exact h.inHand j ev ((hemits j ev).mp hmem)
  · intro hnone
    exact h.noneInHand fun j ev hmem => hnone j ev ((hemits j ev).mpr hmem)
  · -- a queue that is not empty has someone who owes its drain
    intro hne
    by_cases hevs : evs = []
    · refine exists_moved hkeeps (h.someone fun hnil => hne ?_)
      show (w.g.after w.role o).pendingEvents = []
      rw [hspec.queue, hnil, hevs]
      rfl
    · exact exists_moved_self (hdrains (hspec.drains hevs))
  · -- a sleeping entry is in the sleeping state
    intro hc
    rcases hspec.asleep hc with ⟨hbefore, hstate⟩ | hstate
    · exact hstate.trans (h.asleep hbefore)
    · exact hstate
  · -- sleep took effect, and only a resume ends it
    intro hslept
    simp only [Entry.operated] at hslept
    split at hslept
    case isTrue ho => exact hspec.sleeps ho h.ctrl
    case isFalse ho =>
      split at hslept
      · cases hslept
      case isFalse hresume => exact hspec.wakes (h.slept hslept) hresume
  · -- the last state told is the state, unless a resume has not been told yet
    intro hresumed state hlast
    simp only [Entry.operated] at hresumed
    split at hresumed
    · cases hresumed
    case isFalse hresume =>
      have hlast' : (lastState evs).or (lastState w.enqueued) = some state := by
        rw [← lastState_append, ← hqueued]
        exact hlast
      show (w.g.after w.role o).state = state
      rcases hspec.reports with ⟨-, hreport⟩ | ⟨hnone, hreport, hstate⟩
      · rw [hreport, Option.some_or] at hlast'
        exact Option.some.inj hlast'
      · rw [hreport, Option.none_or] at hlast'
        rw [hqueued, hnone] at hresumed
        rw [hstate.resolve_right hresume]
        exact h.mirrors (by simpa using hresumed) state hlast'

/-- A call that delivers nothing keeps it. -/
theorem Inv.moved {w : Entry ι} {i : ι} {frames : List Frame} (h : Inv w)
    (hwork : SameWork (w.stack i) frames)
    (hkeeps : frames ≠ [] ∨ w.g.emitting ∨ w.g.pendingEvents = []) :
    Inv { w with stack := w.moved i frames } := by
  have hemits := emit_mem_moved hwork
  refine { h with
    single := h.single.congr hwork.busy, inHand := ?_, noneInHand := ?_, someone := ?_ }
  · intro j ev hmem
    exact h.inHand j ev ((hemits j ev).mp hmem)
  · intro hnone
    exact h.noneInHand fun j ev hmem => hnone j ev ((hemits j ev).mpr hmem)
  · intro hne
    rcases hkeeps with hframes | hemitting | hnil
    · exact exists_moved_self hframes
    · -- the thread that delivers is still there
      have hsingle := h.single.congr hwork.busy
      rw [hemitting] at hsingle
      obtain ⟨k, hone, -⟩ := hsingle
      refine ⟨k, fun hnil => ?_⟩
      change Function.update w.stack i frames k = [] at hnil
      rw [hnil] at hone
      cases hone
    · exact absurd hnil hne

/-- Taking an event keeps it. -/
theorem Inv.taken {w : Entry ι} {i : ι} {ev : ManagerEvent} {rest : List ManagerEvent}
    {frames : List Frame} (h : Inv w) (hstack : w.stack i = .drain :: frames)
    (hidle : w.g.emitting = false) (hqueue : w.g.pendingEvents = ev :: rest) :
    Inv { w with
      g := { w.g with pendingEvents := rest, emitting := true }
      taken := w.taken ++ [ev]
      stack := w.moved i (.emit ev :: frames) } := by
  have hsingle := h.single
  rw [hidle] at hsingle
  have hcount : frames.countP Frame.busy = 0 := by
    have hzero := hsingle i
    rw [hstack] at hzero
    exact hzero
  have hnone : ∀ j ev', Frame.emit ev' ∉ w.stack j := by
    intro j ev' hmem
    exact absurd (hsingle j) (Nat.pos_iff_ne_zero.mp (busy_of_emit hmem))
  refine { h with
    single := hsingle.start ?_, queue := ?_, inHand := ?_, noneInHand := ?_, someone := ?_ }
  · rw [List.countP_cons_of_pos rfl, hcount]
  · -- the queue loses its first event, and the taken ones gain it
    show w.enqueued = (w.taken ++ [ev]) ++ rest
    rw [h.queue, hqueue, List.append_assoc]
    rfl
  · -- what is in hand now is what was taken last
    intro j ev' hmem
    show w.taken ++ [ev] = w.delivered ++ [ev']
    rcases mem_moved hmem with ⟨-, hmem⟩ | ⟨-, hmem⟩
    · rcases List.mem_cons.mp hmem with heq | hmem
      · cases heq
        rw [h.noneInHand hnone]
      · exact absurd hcount (Nat.pos_iff_ne_zero.mp (busy_of_emit hmem))
    · exact absurd hmem (hnone j ev')
  · intro hno
    refine absurd ?_ (hno i ev)
    show Frame.emit ev ∈ w.moved i (.emit ev :: frames) i
    rw [moved_self]
    exact List.mem_cons_self
  · intro _
    exact exists_moved_self (List.cons_ne_nil _ _)

/-- Handing an event to the observer keeps it. -/
theorem Inv.delivered {w : Entry ι} {i : ι} {ev : ManagerEvent} {frames : List Frame} (h : Inv w)
    (hstack : w.stack i = .emit ev :: frames) :
    Inv { w with
      delivered := w.delivered ++ [ev], stack := w.moved i (.callback ev :: frames) } := by
  have hbusy : (w.stack i).countP Frame.busy = frames.countP Frame.busy + 1 := by
    rw [hstack, List.countP_cons_of_pos rfl]
  have hmem : Frame.emit ev ∈ w.stack i := by
    rw [hstack]
    exact List.mem_cons_self
  obtain ⟨-, hone, hothers⟩ := h.single.only (i := i) (by omega)
  have hnone : ∀ j ev', Frame.emit ev' ∉ w.moved i (.callback ev :: frames) j := by
    intro j ev' hin
    rcases mem_moved hin with ⟨-, hin⟩ | ⟨hj, hin⟩
    · rcases List.mem_cons.mp hin with heq | hin
      · cases heq
      · have := busy_of_emit hin
        omega
    · exact absurd (hothers j hj) (Nat.pos_iff_ne_zero.mp (busy_of_emit hin))
  refine { h with
    single := h.single.congr ?_, inHand := ?_, noneInHand := ?_, someone := ?_ }
  · rw [List.countP_cons_of_pos rfl, hbusy]
  · intro j ev' hin
    exact absurd hin (hnone j ev')
  · intro _
    exact h.inHand i ev hmem
  · intro _
    exact exists_moved_self (List.cons_ne_nil _ _)

/-- Clearing `emitting` keeps it. -/
theorem Inv.cleared {w : Entry ι} {i : ι} {frames : List Frame} (h : Inv w)
    (hstack : w.stack i = .clear :: frames) :
    Inv { w with g := { w.g with emitting := false }, stack := w.moved i (.drain :: frames) } := by
  have hemits : ∀ j ev, Frame.emit ev ∈ w.moved i (.drain :: frames) j ↔
      Frame.emit ev ∈ w.stack j := by
    intro j ev
    by_cases hj : j = i
    · subst hj
      rw [moved_self, hstack]
      simp
    · rw [Entry.moved, Function.update_of_ne hj]
  refine { h with
    single := h.single.stop ?_, inHand := ?_, noneInHand := ?_, someone := ?_ }
  · rw [hstack, List.countP_cons_of_pos rfl]
    rfl
  · intro j ev hmem
    exact h.inHand j ev ((hemits j ev).mp hmem)
  · intro hnone
    exact h.noneInHand fun j ev hmem => hnone j ev ((hemits j ev).mpr hmem)
  · intro _
    exact exists_moved_self (List.cons_ne_nil _ _)

/-- Every step keeps the invariant. -/
theorem Inv.step {w w' : Entry ι} (h : Inv w) {a : ι × ThreadAct} (hstep : w.step a = some w') :
    Inv w' := by
  obtain ⟨i, act⟩ := a
  cases step_stepped hstep with
  | operated o frames hwork hkeeps hdrains => exact h.operated hwork hkeeps hdrains
  | moved frames hwork hkeeps => exact h.moved hwork hkeeps
  | taken ev rest frames hstack hidle hqueue => exact h.taken hstack hidle hqueue
  | delivered ev frames hstack => exact h.delivered hstack
  | cleared frames hstack => exact h.cleared hstack

/-- Whatever the threads do, in any order. -/
theorem inv_of_reaches {role : DbRole} {w : Entry ι}
    (h : Reaches Entry.step anyStep { role := role } w) : Inv w :=
  h.invariant (inv_start role) fun _ _ _ hinv _ hstep => hinv.step hstep

/-! ### The stream and the state -/

/-- The observer's callbacks that a thread is in. -/
def Entry.callbacks (w : Entry ι) (i : ι) : List Frame :=
  (w.stack i).filter fun f => match f with
    | .callback _ => true
    | _ => false

/-- Every call of `drain_events` has returned, and none is owed. -/
def Entry.Quiet (w : Entry ι) : Prop := ∀ i, w.stack i = []

/-- What the observer is promised. -/
structure Mirrored (w : Entry ι) : Prop where
  /-- Callbacks do not overlap, neither on one thread nor on two. -/
  notNested : ∀ i, (w.callbacks i).length ≤ 1
  notConcurrent : ∀ i j, w.callbacks i ≠ [] → w.callbacks j ≠ [] → i = j
  /-- Events are delivered once, in the order in which they were queued. -/
  inOrder : w.delivered <+: w.enqueued
  drained : w.Quiet → w.g.pendingEvents = [] ∧ w.delivered = w.enqueued
  /-- Between `sleep` and `resume` no transition of the worker does anything. -/
  asleep : w.slept = true →
    w.g.state = .sleeping ∧ ∀ new, w.g.after w.role (.transitionRunning new) = w.g
  mirrors : w.Quiet → w.resumed = false → ∀ state, lastState w.delivered = some state →
    w.g.state = state

omit [DecidableEq ι] in
/-- A caller in a callback is busy. -/
theorem callbacks_length_le (w : Entry ι) (i : ι) :
    (w.callbacks i).length ≤ (w.stack i).countP Frame.busy := by
  rw [Entry.callbacks, ← List.countP_eq_length_filter]
  refine List.countP_mono_left fun f _ hf => ?_
  cases f with
  | callback ev => rfl
  | emit ev => cases hf
  | owes => cases hf
  | drain => cases hf
  | clear => cases hf

omit [DecidableEq ι] in
/-- A callback makes its caller busy. -/
theorem busy_of_callbacks {w : Entry ι} {i : ι} (hne : w.callbacks i ≠ []) :
    0 < (w.stack i).countP Frame.busy :=
  Nat.lt_of_lt_of_le (List.length_pos_iff.mpr hne) (callbacks_length_le w i)

omit [DecidableEq ι] in
/-- **No callback** is entered from within another. -/
theorem Inv.notNested {w : Entry ι} (h : Inv w) (i : ι) : (w.callbacks i).length ≤ 1 := by
  by_cases hne : w.callbacks i = []
  · rw [hne]
    exact Nat.zero_le _
  · obtain ⟨-, hone, -⟩ := h.single.only (busy_of_callbacks hne)
    exact hone ▸ callbacks_length_le w i

omit [DecidableEq ι] in
/-- **No two callers** are in a callback at once. -/
theorem Inv.notConcurrent {w : Entry ι} (h : Inv w) (i j : ι) (hi : w.callbacks i ≠ [])
    (hj : w.callbacks j ≠ []) :
    i = j := by
  obtain ⟨-, -, hothers⟩ := h.single.only (busy_of_callbacks hj)
  by_contra hne
  exact absurd (hothers i hne) (Nat.pos_iff_ne_zero.mp (busy_of_callbacks hi))

omit [DecidableEq ι] in
/-- Behind what was delivered there is at most the event in hand. -/
theorem Inv.inOrder {w : Entry ι} (h : Inv w) : w.delivered <+: w.enqueued := by
  have htaken : w.delivered <+: w.taken := by
    by_cases hhand : ∃ i ev, Frame.emit ev ∈ w.stack i
    · obtain ⟨i, ev, hmem⟩ := hhand
      rw [h.inHand i ev hmem]
      exact List.prefix_append _ _
    · have heq := h.noneInHand fun i ev hmem => hhand ⟨i, ev, hmem⟩
      exact heq ▸ List.prefix_rfl
  rw [h.queue]
  exact htaken.trans (List.prefix_append _ _)

omit [DecidableEq ι] in
/-- With nobody at work every event has been delivered. -/
theorem Inv.drained {w : Entry ι} (h : Inv w) (hquiet : w.Quiet) :
    w.g.pendingEvents = [] ∧ w.delivered = w.enqueued := by
  have hnil : w.g.pendingEvents = [] := by
    by_contra hne
    obtain ⟨i, hi⟩ := h.someone hne
    exact hi (hquiet i)
  have htaken : w.taken = w.delivered := by
    refine h.noneInHand fun i ev hmem => ?_
    rw [hquiet i] at hmem
    cases hmem
  refine ⟨hnil, ?_⟩
  rw [h.queue, hnil, List.append_nil, htaken]

omit [DecidableEq ι] in
/-- A worker's transition does nothing once the entry sleeps. -/
theorem Inv.transition_asleep {w : Entry ι} (h : Inv w) (hslept : w.slept = true) (new : DbState) :
    w.g.after w.role (.transitionRunning new) = w.g := by
  have hne : w.g.ctrl ≠ .running := by
    rw [h.slept hslept]
    decide
  exact if_pos (.inl hne)

/-- **The event stream mirrors the state**, whatever the worker, the control calls and the
observer's own calls do and in whichever order they take the entry lock. -/
theorem events_mirror_state {role : DbRole} {w : Entry ι}
    (h : Reaches Entry.step anyStep { role := role } w) :
    Mirrored w := by
  have hinv := inv_of_reaches h
  refine
    { notNested := hinv.notNested
      notConcurrent := hinv.notConcurrent
      inOrder := hinv.inOrder
      drained := hinv.drained
      asleep := fun hslept => ⟨hinv.asleep (hinv.slept hslept), hinv.transition_asleep hslept⟩
      mirrors := ?_ }
  intro hquiet hresumed state hlast
  rw [(hinv.drained hquiet).2] at hlast
  exact hinv.mirrors hresumed state hlast

end

/-- The worker delivers `Working`; its observer calls `sleep` from the callback, and another thread
records an error meanwhile. -/
def sleepInCallback : List (Bool × ThreadAct) :=
  [(false, .op (.transitionRunning .working)), (false, .callDrain), (false, .takeNext),
    (false, .deliver), (false, .op .sleep), (true, .op (.recordError "timeout" true)),
    (true, .callDrain), (true, .takeNext),
    (false, .callDrain), (false, .takeNext), (false, .op (.transitionRunning .idle)),
      (false, .callDrain),
    (false, .takeNext), (false, .finish), (false, .clear),
    (false, .takeNext), (false, .deliver), (false, .finish), (false, .clear),
    (false, .takeNext), (false, .deliver), (false, .finish), (false, .clear), (false, .takeNext)]

/-- A callback that puts the entry to sleep. -/
theorem events_mirror_sleep_in_callback :
    ∃ w : Entry Bool, Reaches Entry.step anyStep { role := .push } w ∧ w.Quiet ∧
      w.delivered = [.stateChanged .working, .stateChanged .sleeping, .error "timeout" true] ∧
        Mirrored w := by
  have hrun : (takeSteps Entry.step { role := .push } sleepInCallback).isSome := by decide
  obtain ⟨w, hw⟩ := Option.isSome_iff_exists.mp hrun
  have hreached : Reaches Entry.step anyStep { role := .push } w :=
    reaches_of_takeSteps .refl allowedSteps_any hw
  have hfacts : ∀ w ∈ takeSteps Entry.step { role := .push } sleepInCallback,
      (w.stack true = [] ∧ w.stack false = []) ∧
        w.delivered = [.stateChanged .working, .stateChanged .sleeping, .error "timeout" true] := by
          decide
  obtain ⟨⟨htrue, hfalse⟩, hdelivered⟩ := hfacts w hw
  refine ⟨w, hreached, fun i => ?_, hdelivered, events_mirror_state hreached⟩
  cases i with
  | false => exact hfalse
  | true => exact htrue

end Manager

end Liters
