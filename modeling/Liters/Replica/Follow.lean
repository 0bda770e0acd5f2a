import Liters.Foundation.Checked
import Liters.Http.Client
import Liters.Replica.Sync

/-! # Following a bucket

The loop that keeps a replica current (`Replica::follow`): a sync, then a session with the backend's
live stream, which applies frames in place until the stream ends or misbehaves, then the next sync.
It is a machine with two kinds of steps, a round up to the session and one event of a session;
between any two of them the process may be gone.

Sleeps are only counted: how long they take is left to the surroundings, which say whether the token
was cancelled meanwhile. -/

namespace Liters

/-! ## The loop -/

/-- What `follow` may sleep for: the polling interval, or the backoff after some failures in a
row. -/
inductive Nap where
  | poll
  | backoff (attempt : Nat)
  deriving DecidableEq

/-- The options of `follow`: whether transient errors are retried. -/
structure FollowOptions where
  retry : Bool

/-- Whether retrying the same operation later can succeed. Of a storage error the surroundings know
whether it came from the link or the disk. -/
def ReplicaError.isTransient (unavailable : Bool) : ReplicaError → Bool
  | .storage => unavailable
  | .io => true
  | .lockBusy => true
  | _ => false

/-- A session with a live stream. `before` is the position at the top of the loop. -/
structure StreamSession where
  before : Nat
  pageSize : Nat
  position : Nat
  madeProgress : Bool

/-- Where `follow` is. -/
inductive FollowPhase where
  | round
  | streaming (session : StreamSession)
  | returned (result : Except ReplicaError Unit)
  | killed

/-- A follower: the replica, the failures in a row, and where the loop is. The last two fields are
ghosts: the sleeps so far and the number of syncs that restored. -/
structure Following where
  site : Site
  attempt : Nat := 0
  phase : FollowPhase := .round
  naps : List Nap := []
  restores : Nat := 0

/-- What asking for the live stream comes to. -/
inductive StreamOpening where
  | live
  | unsupported
  | failed
  | cancelled
  | killed

/-- The surroundings of a round: the token at the top of the loop and during a sleep, the sync, the
stream, the database file, and whether a storage error is a matter of the link. -/
structure RoundEnv where
  cancelled : Bool
  sync : SyncEnv
  stream : StreamOpening
  file : Turn
  unavailable : Bool
  sleepCancelled : Bool

/-- The surroundings of an event of a session: the token, the steps of handling it, what the stream
tells and what it wrote to the spool file. -/
structure EventEnv where
  cancelled : Bool
  steps : SyncEnv
  told : Except ReplicaError StreamEvent
  spool : Bytes
  unavailable : Bool
  sleepCancelled : Bool

namespace Following

/-- Leave the loop. -/
def leave (result : Except ReplicaError Unit) (s : Following) : Following :=
  { s with phase := .returned result }

/-- Sleep, then go back to the top of the loop. -/
def sleep (nap : Nap) (cancelled : Bool) (s : Following) : Following :=
  { s with naps := s.naps ++ [nap], phase := if cancelled then .returned (.ok ()) else .round }

/-- An error: back off if it is transient and errors are retried. -/
def retryOr (fopts : FollowOptions) (unavailable sleepCancelled : Bool) (e : ReplicaError)
    (s : Following) : Following :=
  if e.isTransient unavailable ∧ fopts.retry then
    { s.sleep (.backoff s.attempt) sleepCancelled with attempt := saturatingSucc s.attempt }
  else s.leave (.error e)

/-- Begin a session with the live stream, if there is one. -/
def openSession (fopts : FollowOptions) (env : RoundEnv) (before : Nat) (s : Following) :
    Following :=
  match readTxidFile s.site.disk with
  | .error e => s.leave (.error e)
  | .ok position =>
      match env.stream with
      | .killed => { s with phase := .killed }
      | .cancelled => s.leave (.ok ())
      | .failed => s.retryOr fopts env.unavailable env.sleepCancelled .storage
      | .unsupported => s.sleep .poll env.sleepCancelled
      | .live =>
          match env.file, s.site.disk.db.bind Replica.readPageSize with
          | .killed _, _ => { s with phase := .killed }
          | .done, some pageSize =>
              { s with phase := .streaming ⟨before, pageSize, position, before < position⟩ }
          | _, _ => s.retryOr fopts env.unavailable env.sleepCancelled .io

/-- A round up to the session. -/
def round (c : Codec) (opts : ReplicaOptions) (fopts : FollowOptions) (env : RoundEnv)
    (s : Following) : Following :=
  if env.cancelled then s.leave (.ok ())
  else
    match readTxidFile s.site.disk with
    | .error e => s.leave (.error e)
    | .ok before =>
        match syncWith c opts env.sync s.site with
        | (.error .killed, site) => { s with site, phase := .killed }
        | (.error (.error .cancelled), site) => { s with site }.leave (.ok ())
        | (.error (.error .txNotAvailable), site) => { s with site }.sleep .poll env.sleepCancelled
        | (.error (.error e), site) =>
            { s with site }.retryOr fopts env.unavailable env.sleepCancelled e
        | (.ok result, site) =>
            let restores := if result.restored then s.restores + 1 else s.restores
            { s with site, attempt := 0, restores }.openSession fopts env before

end Following

namespace Replica

/-- Apply a spooled file. A file of another page size, one that does not decode and a storage error
are left to the next sync. -/
def appliesSpooled (env : SyncEnv) (c : Codec) (opts : ReplicaOptions) (pageSize : Nat)
    (body : Bytes) : Sync Bool :=
  tryCatch (do applySpooled env c opts pageSize body; pure true) fun
    | .error (.diverged _ _) => pure false
    | .error (.ltx _) => pure false
    | .error .storage => pure false
    | .error (.notFound _ _ _) => pure false
    | halt => throw halt

/-- One event of a session: the session afterwards, or none if it is over. -/
def handleEvent (c : Codec) (opts : ReplicaOptions) (env : EventEnv) (session : StreamSession) :
    Sync (Option StreamSession) := do
  -- the spool file is created before the stream is asked
  pass env.steps .io
  match env.told with
  | .error e => throw (.error e)
  | .ok (.ltx info) =>
      if info.maxTxid ≤ session.position then pure (some session)
      else if isContiguous session.position info.minTxid info.maxTxid then do
        pass env.steps .io
        if ← appliesSpooled env.steps c opts session.pageSize env.spool then do
          advanceTxidFile env.steps info.maxTxid
          return some { session with position := info.maxTxid, madeProgress := true }
        else return none
      else pure none
  | .ok (.idle (some m)) => if m ≠ 0 ∧ m < session.position then pure none else pure (some session)
  | .ok (.idle none) => pure (some session)
  | .ok _ => pure none

end Replica

namespace Following

/-- The end of a session, with an error or without. -/
def endSession (fopts : FollowOptions) (env : EventEnv) (madeProgress : Bool)
    (e : Option ReplicaError) (s : Following) : Following :=
  let s := if madeProgress then { s with attempt := 0 } else s
  match e with
  | some .cancelled => s.leave (.ok ())
  | some e => s.retryOr fopts env.unavailable env.sleepCancelled e
  | none => if madeProgress then { s with phase := .round } else s.sleep .poll env.sleepCancelled

/-- One event of a session. -/
def event (c : Codec) (opts : ReplicaOptions) (fopts : FollowOptions) (env : EventEnv)
    (session : StreamSession) (s : Following) : Following :=
  if env.cancelled then s.leave (.ok ())
  else
    match s.site.disk.db with
    -- sessions begin with a database in place
    | none => s
    | some db =>
        match Replica.handleEvent c opts env session
            ⟨db, s.site.disk.txid, 0, s.site.reached, s.site.rooted⟩ with
        | .ok (some session) f => { s with site := f.site, phase := .streaming session }
        | .ok none f => { s with site := f.site }.endSession fopts env session.madeProgress none
        | .error .killed f => { s with site := f.site, phase := .killed }
        | .error (.error e) f =>
            { s with site := f.site }.endSession fopts env session.madeProgress (some e)

end Following

/-- What `follow` meets next. -/
inductive FollowInput where
  | round (env : RoundEnv)
  | event (env : EventEnv)

/-- A step of `follow`; where it does not wait for the input, nothing happens. -/
def followStep (c : Codec) (opts : ReplicaOptions) (fopts : FollowOptions) (s : Following) :
    FollowInput → Following
  | .round env =>
      match s.phase with
      | .round => s.round c opts fopts env
      | _ => s
  | .event env =>
      match s.phase with
      | .streaming session => s.event c opts fopts env session
      | _ => s

/-- Steps of `follow`, one after the other. -/
def followSteps (c : Codec) (opts : ReplicaOptions) (fopts : FollowOptions) (s : Following)
    (inputs : List FollowInput) :
    Following := inputs.foldl (followStep c opts fopts) s

end Liters
