import Liters.Maintenance.Bucket
import Liters.Foundation.Text

/-! # One database served over HTTP

The write side of a mount (`mount.rs`): pushed files, deletes, the fence in front of them and the
writer lease. A PUT meets the fence twice. The first time, before its body is received, nothing
depends on it but an early rejection. The second time it holds the write gate, and what follows up
to the release of the gate is one step: fence, comparison with a stored file, write, lease,
notification. Other requests run between the two, so a request is first received (`receive`) and
later completed (`complete`). -/

namespace Liters

/-! ## Names and headers -/

/-- The value of a lowercase hexadecimal digit. -/
def lowerHexDigit? (ch : Char) : Option Nat :=
  if '0' ≤ ch ∧ ch ≤ '9' then some (ch.toNat - '0'.toNat)
  else if 'a' ≤ ch ∧ ch ≤ 'f' then some (ch.toNat - 'a'.toNat + 10)
  else none

/-- The number that lowercase hexadecimal digits spell. -/
def parseLowerHex (digits : List Char) : Option Nat :=
  digits.foldlM (fun n ch => (lowerHexDigit? ch).map fun d => n * 16 + d) 0

/-- A file name of the form `%016x-%016x.ltx`. -/
def parseFilename (name : String) : Option (Nat × Nat) := do
  let chars := name.toList
  if chars.length = 37 ∧ chars.drop 33 = ".ltx".toList ∧ chars[16]? = some '-' then
    let minTxid ← parseLowerHex (chars.take 16)
    let maxTxid ← parseLowerHex ((chars.drop 17).take 16)
    return (minTxid, maxTxid)
  else none

/-- A level: one decimal digit. -/
def parseLevel (s : String) : Option Nat :=
  match s.toList with
  | [ch] => if ch.isDigit then some (ch.toNat - '0'.toNat) else none
  | _ => none

/-- The headers of a request, their names in lower case. -/
abbrev Headers := List (String × String)

/-- The value of the first header of a name. -/
def header (headers : Headers) (name : String) : Option String :=
  (headers.find? fun h => h.1 = name).map Prod.snd

/-- The id a writer names itself by. -/
def writerId (headers : Headers) : Option String := header headers "x-liters-writer-id"

/-- Whether a writer asks to take the bucket over. -/
def takeover (headers : Headers) : Bool := header headers "x-liters-writer-takeover" = some "1"

/-- `authorization: Bearer <token>`: any case of the scheme, the exact token. -/
def authorized (headers : Headers) (expected : String) : Bool :=
  match header headers "authorization" with
  | none => false
  | some value =>
      match value.toList.span fun ch => !isSpace ch with
      | (_, []) => false
      | (scheme, _ :: token) =>
          (String.ofList scheme).toLower = "bearer" && trim token = expected.toList

/-! ## Requests and responses -/

/-- Options of a mount. Times are in nanoseconds. -/
structure MountOptions where
  writable : Bool := false
  authToken : Option String := none
  leaseTtl : Nat := 24 * 60 * 60 * 10 ^ 9

/-- How a body is received: in full, cut short by the peer, or not at all. -/
inductive Spool where
  | received (body : Bytes)
  | truncated (msg : String)
  | failed (msg : String)

/-- A request; `path` is already stripped of the mount's prefix. -/
structure Request where
  method : String
  path : String
  headers : Headers

/-- A status and a one-line text. -/
structure Response where
  status : Nat
  body : String
  deriving DecidableEq

/-- An error line. -/
def Response.error (status : Nat) (msg : String) : Response := ⟨status, msg ++ "\n"⟩

/-- What comes of a request: an answer, or the thread that served it panics. -/
inductive Outcome where
  | answered (r : Response)
  | panicked
  deriving DecidableEq

/-- The writer that last touched the bucket with an id. -/
structure WriterLease where
  id : String
  lastSeen : Nat
  deriving DecidableEq

/-- What the requests to a mount share. A panic while the write gate is held poisons it. -/
structure MountState where
  bucket : Bucket
  lease : Option WriterLease := none
  generation : UInt64 := 0
  poisoned : Bool := false

/-! ## The fence -/

/-- Why the fence rejects a write. -/
inductive FenceReject where
  | conflict (msg : String)
  | backend (msg : String)
  /-- An addition overflows. -/
  | panic

/-- A passed fence: the id to record as the holder of the lease, and the stored level-0 file of the
same name. -/
structure FencePass where
  claim : Option String := none
  existingL0 : Option Stored := none

/-- The highest transaction of listed files, 0 without any. -/
def maxOf (files : List Stored) : Nat := (files.map Stored.maxTxid).max?.getD 0

/-- The highest transaction across all levels. -/
def bucketMax (b : Bucket) : Nat := maxOf ((List.range (snapshotLevel + 1)).flatMap b)

/-- Whether somebody else holds the lease. -/
def heldByOther (opts : MountOptions) (lease : Option WriterLease) (id : String) (now : Nat) :
    Option WriterLease :=
  lease.filter fun l => l.id ≠ id ∧ now - l.lastSeen < opts.leaseTtl

/-- The lease rule: it applies to writers that name themselves. -/
def checkLease (opts : MountOptions) (s : MountState) (headers : Headers) (now : Nat) :
    Except FenceReject (Option String) :=
  match writerId headers with
  | none => .ok none
  | some id =>
      match heldByOther opts s.lease id now with
      | none => .ok (some id)
      | some l =>
          if takeover headers then .ok (some id)
          else .error (.conflict ("bucket is owned by writer " ++ l.id))

/-- The file a PUT offers. -/
structure Offer where
  level : Nat
  minTxid : Nat
  maxTxid : Nat

/-- The range of an offered file as error messages show it. -/
def Offer.range (o : Offer) : String := hexPad 16 o.minTxid ++ "-" ++ hexPad 16 o.maxTxid

/-- The monotonicity rule for an offered file; `listed` is how the listings go. The next transaction
is computed in 64 bits. -/
def checkMonotonic (b : Bucket) (o : Offer) (listed : Except String Unit) :
    Except FenceReject (Option Stored) :=
  match listed with
  | .error msg => .error (.backend msg)
  | .ok () =>
      if o.level = 0 then
        let files := b 0
        let cur := maxOf files
        match files.find? fun s => s.key = (o.minTxid, o.maxTxid) with
        | some existing => .ok (some existing)
        | none =>
            if files = [] then .ok none
            else if 2 ^ 64 ≤ cur + 1 then .error .panic
            else if o.minTxid = cur + 1 then .ok none
            else .error (.conflict ("non-monotonic L0 push: " ++ o.range ++ " offered, bucket at "
              ++ hexPad 16 cur))
      else
        let bmax := bucketMax b
        if o.maxTxid > bmax then
          .error (.conflict ("L" ++ toString o.level ++ " push beyond bucket max: " ++ o.range
            ++ " offered, bucket max is " ++ hexPad 16 bmax
            ++ "; upload the L0 backlog before pushing compactions or snapshots"))
        else .ok none

/-- The fence: the lease rule, and for a PUT the monotonicity rule. It changes nothing. -/
def checkFence (opts : MountOptions) (s : MountState) (headers : Headers) (put : Option Offer)
    (now : Nat) (listed : Except String Unit) : Except FenceReject FencePass := do
  let claim ← checkLease opts s headers now
  match put with
  | none => return { claim }
  | some o => do
      let existingL0 ← checkMonotonic s.bucket o listed
      return { claim, existingL0 }

/-- The answer to a rejected write. -/
def FenceReject.outcome : FenceReject → Outcome
  | .conflict msg => .answered (.error 409 msg)
  | .backend msg => .answered (.error 500 ("fence: " ++ msg))
  | .panic => .panicked

/-! ## Admission -/

/-- A mutating request that waits for the write gate. -/
inductive Job where
  | put (o : Offer) (headers : Headers) (spool : Spool)
  | delete (level minTxid maxTxid : Nat) (headers : Headers)
  | deleteAll (headers : Headers)

/-- The headers of a waiting request. -/
def Job.headers : Job → Headers
  | .put _ headers _ => headers
  | .delete _ _ _ headers => headers
  | .deleteAll headers => headers

/-- What a request is about. -/
inductive Route where
  /-- Listings, files, the stream and the version line. They change nothing. -/
  | read
  | put (level name : String)
  | delete (level name : String)
  | deleteAll
  | notFound
  | notAllowed

/-- The segments of a path between its outer slashes. -/
def segments (path : String) : List String :=
  let inner := ((path.toList.dropWhile (· = '/')).reverse.dropWhile (· = '/')).reverse
  (splitWhen (· = '/') inner).map String.ofList

/-- Match method and path. -/
def route (method path : String) : Route :=
  match method, segments path with
  | "GET", [""] => .read
  | "GET", ["ltx", _] => .read
  | "GET", ["ltx", _, _] => .read
  | "GET", ["stream"] => .read
  | "PUT", ["ltx", level, name] => .put level name
  | "DELETE", ["ltx", level, name] => .delete level name
  | "DELETE", ["all"] => .deleteAll
  | "GET", _ => .notFound
  | "PUT", _ => .notFound
  | "DELETE", _ => .notFound
  | _, _ => .notAllowed

/-- Parse the target of a write, or say what is wrong with it. -/
def parseTarget (opts : MountOptions) (level name : String) : Except Response (Nat × Nat × Nat) :=
  if opts.writable then
    match parseLevel level with
    | none => .error (.error 404 "no such level")
    | some l =>
        match parseFilename name with
        | none => .error (.error 404 "bad ltx filename")
        | some (minTxid, maxTxid) => .ok (l, minTxid, maxTxid)
  else .error (.error 403 "server is read-only (writable: false)")

/-- What the early checks see of the mount. -/
structure View where
  state : MountState
  now : Nat
  listed : Except String Unit

/-- The checks before the write gate. `answer` is what a read is answered with; a body is received
after the advisory fence. -/
def receive (opts : MountOptions) (v : View) (r : Request) (spool : Spool) (answer : Response) :
    Except Outcome Job :=
  if opts.authToken.any fun expected => !authorized r.headers expected then
    .error (.answered (.error 401 "authorization required"))
  else
    match route r.method r.path with
    | .read => .error (.answered answer)
    | .notFound => .error (.answered (.error 404 "not found"))
    | .notAllowed => .error (.answered (.error 405 "method not allowed"))
    | .put level name =>
        match parseTarget opts level name with
        | .error response => .error (.answered response)
        | .ok (l, minTxid, maxTxid) =>
            match checkFence opts v.state r.headers (some ⟨l, minTxid, maxTxid⟩) v.now v.listed with
            | .error reject => .error reject.outcome
            | .ok _ => .ok (.put ⟨l, minTxid, maxTxid⟩ r.headers spool)
    | .delete level name =>
        match parseTarget opts level name with
        | .error response => .error (.answered response)
        | .ok (l, minTxid, maxTxid) => .ok (.delete l minTxid maxTxid r.headers)
    | .deleteAll =>
        if opts.writable then .ok (.deleteAll r.headers)
        else .error (.answered (.error 403 "server is read-only (writable: false)"))

/-! ## The write gate -/

/-- How the backend's mutation goes. Of one that fails, `part` says which files it changed. -/
inductive BackendFate where
  | done
  | failed (part : Nat → Nat × Nat → Bool) (msg : String)

/-- What the surroundings decide while a request holds the gate. -/
structure Surroundings where
  fenceAt : Nat
  listed : Except String Unit
  /-- Whether the stored file can be read for the comparison, and the spool be rewound. -/
  compared : Except String Unit
  rewound : Except String Unit
  backend : BackendFate
  commitAt : Nat

/-- Record the holder of the lease. -/
def commitLease (s : MountState) (pass : FencePass) (now : Nat) : MountState :=
  match pass.claim with
  | none => s
  | some id => { s with lease := some ⟨id, now⟩ }

/-- Wake the followers. -/
def notify (s : MountState) : MountState := { s with generation := s.generation + 1 }

/-- A mutation of the bucket, then the lease and the notification. `full` is the mutation, `partly`
what is left of it when it fails. -/
def mutate (s : MountState) (pass : FencePass) (env : Surroundings) (full : Bucket → Bucket)
    (partly : (Nat → Nat × Nat → Bool) → Bucket → Bucket) (ok : String) (context : String) :
    MountState × Outcome :=
  match env.backend with
  | .done => (notify (commitLease { s with bucket := full s.bucket } pass env.commitAt),
      .answered ⟨200, ok⟩)
  | .failed part msg => ({ s with bucket := partly part s.bucket },
      .answered (.error 500 (context ++ ": " ++ msg)))

/-- A change of one file that fails was made or not. -/
def madeOrNot (part : Nat → Nat × Nat → Bool) (level : Nat) (key : Nat × Nat) (m : Mutation)
    (b : Bucket) : Bucket := if part level key then b.act m else b

/-- The creation time a backend gives a file: the time in its header, in nanoseconds. -/
def headerTime (hdr : Header) : Int :=
  if 0 ≤ hdr.timestamp.toInt then hdr.timestamp.toInt * 10 ^ 6 else 0

/-- The file a PUT stores. -/
def Offer.stored (o : Offer) (body : Bytes) (hdr : Header) : Stored :=
  ⟨o.minTxid, o.maxTxid, some (headerTime hdr), body⟩

/-- One line of a listing. -/
def listingLine (s : Stored) : String :=
  hexPad 16 s.minTxid ++ "-" ++ hexPad 16 s.maxTxid ++ ".ltx " ++ toString s.body.length ++ " "
    ++ (match s.createdAt with
      | some t => if 0 ≤ t then toString (t.toNat / 10 ^ 6) else "-"
      | none => "-") ++ "\n"

/-- Write a file through: the header is read first. -/
def writeLtxFile (s : MountState) (pass : FencePass) (env : Surroundings) (o : Offer)
    (body : Bytes) :
    MountState × Outcome :=
  if body.length < headerSize then
    (s, .answered (.error 400 "short or truncated ltx body: failed to fill whole buffer"))
  else
    match Header.decode (body.take headerSize) with
    | .error e => (s, .answered (.error 400 ("bad ltx file: " ++ e.text)))
    | .ok hdr =>
        let file := o.stored body hdr
        mutate s pass env (fun b => b.act (.put o.level file))
          (fun part => madeOrNot part o.level (o.minTxid, o.maxTxid) (.put o.level file))
          (listingLine file) "write"

/-- Whether a stored file of the same name is the pushed one. -/
def sameBody (pass : FencePass) (env : Surroundings) (body : Bytes) : Except String Bool :=
  match pass.existingL0 with
  | none => .ok true
  | some existing =>
      if existing.body.length = body.length then
        match env.compared with
        | .error msg => .error msg
        | .ok () => .ok (existing.body = body)
      else .ok false

/-- A spooled PUT behind the fence. -/
def acceptFile (s : MountState) (pass : FencePass) (env : Surroundings) (o : Offer) (body : Bytes) :
    MountState × Outcome :=
  match sameBody pass env body with
  | .error msg => (s, .answered (.error 500 ("fence: " ++ msg)))
  | .ok false => (s, .answered (.error 409 ("L0 re-push of " ++ o.range
      ++ " does not match the stored file (divergent writer?)")))
  | .ok true =>
      match env.rewound with
      | .error msg => (s, .answered (.error 500 ("spool: " ++ msg)))
      | .ok () => writeLtxFile s pass env o body

/-- Take the gate and run `act` behind the fence. -/
def gated (opts : MountOptions) (s : MountState) (headers : Headers) (put : Option Offer)
    (env : Surroundings) (act : FencePass → MountState × Outcome) : MountState × Outcome :=
  if s.poisoned then (s, .panicked)
  else
    match checkFence opts s headers put env.fenceAt env.listed with
    | .error .panic => ({ s with poisoned := true }, .panicked)
    | .error reject => (s, reject.outcome)
    | .ok pass => act pass

/-- Complete a waiting request. -/
def complete (opts : MountOptions) (s : MountState) (env : Surroundings) :
    Job → MountState × Outcome
  | .put _ _ (.truncated msg) =>
      (s, .answered (.error 400 ("short or truncated ltx body: " ++ msg)))
  | .put _ _ (.failed msg) => (s, .answered (.error 500 ("read body: " ++ msg)))
  | .put o headers (.received body) =>
      gated opts s headers (some o) env fun pass => acceptFile s pass env o body
  | .delete level minTxid maxTxid headers =>
      gated opts s headers none env fun pass =>
        mutate s pass env (fun b => b.act (.delete level minTxid maxTxid))
          (fun part => madeOrNot part level (minTxid, maxTxid) (.delete level minTxid maxTxid))
          "deleted\n" "delete"
  | .deleteAll headers =>
      gated opts s headers none env fun pass =>
        mutate s pass env (fun _ => Bucket.empty)
          (fun part b level => (b level).filter fun f => !part level f.key) "deleted\n" "delete all"

/-! ## What a request can come to -/

/-- All a waiting request can come to. A write that is carried out has passed the fence under the
gate. -/
inductive Completed (opts : MountOptions) (s : MountState) (env : Surroundings) :
    Job → MountState × Outcome → Prop where
  | rejected {job : Job} {r : Response} (h : r.status ≠ 200) :
      Completed opts s env job (s, .answered r)
  | gateLost {job : Job} (h : s.poisoned = true) : Completed opts s env job (s, .panicked)
  | overflowed {o : Offer} {headers : Headers} {body : Bytes}
      (h : checkFence opts s headers (some o) env.fenceAt env.listed = .error .panic) :
      Completed opts s env (.put o headers (.received body))
        ({ s with poisoned := true }, .panicked)
  | stored {o : Offer} {headers : Headers} {body : Bytes} {pass : FencePass} {hdr : Header}
      (hgate : s.poisoned = false)
      (hfence : checkFence opts s headers (some o) env.fenceAt env.listed = .ok pass)
      (hsame : sameBody pass env body = .ok true)
      (hhdr : Header.decode (body.take headerSize) = .ok hdr) :
      Completed opts s env (.put o headers (.received body))
        (mutate s pass env (fun b => b.act (.put o.level (o.stored body hdr)))
          (fun part => madeOrNot part o.level (o.minTxid, o.maxTxid)
            (.put o.level (o.stored body hdr))) (listingLine (o.stored body hdr)) "write")
  | deleted {level minTxid maxTxid : Nat} {headers : Headers} {pass : FencePass}
      (hfence : checkFence opts s headers none env.fenceAt env.listed = .ok pass) :
      Completed opts s env (.delete level minTxid maxTxid headers)
        (mutate s pass env (fun b => b.act (.delete level minTxid maxTxid))
          (fun part => madeOrNot part level (minTxid, maxTxid) (.delete level minTxid maxTxid))
          "deleted\n" "delete")
  | wiped {headers : Headers} {pass : FencePass}
      (hfence : checkFence opts s headers none env.fenceAt env.listed = .ok pass) :
      Completed opts s env (.deleteAll headers)
        (mutate s pass env (fun _ => Bucket.empty)
          (fun part b level => (b level).filter fun f => !part level f.key) "deleted\n"
            "delete all")

variable {opts : MountOptions} {s : MountState} {env : Surroundings}

/-- A rejected write is answered 409 or 500. -/
theorem FenceReject.outcome_eq {reject : FenceReject} (h : reject ≠ .panic) :
    ∃ r : Response, reject.outcome = .answered r ∧ r.status ≠ 200 := by
  cases reject with
  | conflict msg => exact ⟨_, rfl, by simp [Response.error]⟩
  | backend msg => exact ⟨_, rfl, by simp [Response.error]⟩
  | panic => exact absurd rfl h

/-- The lease rule adds nothing up. -/
theorem checkLease_ne_panic (s : MountState) (headers : Headers) (now : Nat) :
    checkLease opts s headers now ≠ .error .panic := by
  unfold checkLease
  intro h
  split at h
  · cases h
  · split at h
    · cases h
    · split at h
      · cases h
      · cases h

/-- Nor does the fence of a DELETE. -/
theorem checkFence_none_ne_panic (headers : Headers) (now : Nat) (listed : Except String Unit) :
    checkFence opts s headers none now listed ≠ .error .panic := by
  unfold checkFence
  intro h
  cases hc : checkLease opts s headers now with
  | error e =>
      rw [hc] at h
      cases h
      exact checkLease_ne_panic s headers now hc
  | ok claim => rw [hc] at h; cases h

/-- A request behind the gate: it is rejected, or `act` runs with a passed fence. -/
theorem gated_cases {headers : Headers} {put : Option Offer} {job : Job}
    {act : FencePass → MountState × Outcome}
    (hpanic : checkFence opts s headers put env.fenceAt env.listed = .error .panic →
      Completed opts s env job ({ s with poisoned := true }, .panicked))
    (hact : ∀ pass, s.poisoned = false →
      checkFence opts s headers put env.fenceAt env.listed = .ok pass →
      Completed opts s env job (act pass)) :
    Completed opts s env job (gated opts s headers put env act) := by
  unfold gated
  split
  · rename_i hp
    exact .gateLost hp
  · rename_i hp
    split
    · rename_i hf
      exact hpanic hf
    · rename_i reject hne hf
      obtain ⟨r, hr, hstatus⟩ := FenceReject.outcome_eq hne
      rw [hr]
      exact .rejected hstatus
    · rename_i pass hf
      exact hact pass (by simpa using hp) hf

/-- Completing a request comes to one of these. -/
theorem completed (opts : MountOptions) (s : MountState) (env : Surroundings) (job : Job) :
    Completed opts s env job (complete opts s env job) := by
  cases job with
  | put o headers spool =>
      cases spool with
      -- the body did not arrive whole
      | truncated msg => exact .rejected (by simp [Response.error])
      | failed msg => exact .rejected (by simp [Response.error])
      | received body =>
          -- under the gate: the fence, then the body against the stored one
          refine gated_cases (fun h => .overflowed h) fun pass hgate hfence => ?_
          unfold acceptFile
          split
          · exact .rejected (by simp [Response.error])
          · exact .rejected (by simp [Response.error])
          · rename_i hsame
            split
            · exact .rejected (by simp [Response.error])
            · -- its header is read for the creation time
              unfold writeLtxFile
              split
              · exact .rejected (by simp [Response.error])
              · split
                · exact .rejected (by simp [Response.error])
                · rename_i hdr hhdr
                  exact .stored hgate hfence hsame hhdr
  | delete level minTxid maxTxid headers =>
      exact gated_cases (fun h => absurd h (checkFence_none_ne_panic _ _ _))
        fun pass _ hfence => .deleted hfence
  | deleteAll headers =>
      exact gated_cases (fun h => absurd h (checkFence_none_ne_panic _ _ _))
        fun pass _ hfence => .wiped hfence

/-! ## Runs -/

/-- A mount at work. `accepted` and `past` are ghosts: the accepted writes that carried an id,
newest first, with the times they were committed at; the buckets there have been, newest first. -/
structure Serving where
  state : MountState
  waiting : List Job := []
  accepted : List (String × Nat) := []
  past : List Bucket := []

/-- A request arrives, or a waiting one is completed. What the early checks see is left open: they
run beside a request that holds the gate. -/
inductive ServerEvent where
  | arrive (v : View) (r : Request) (spool : Spool) (answer : Response)
  | proceed (i : Nat) (env : Surroundings)

/-- The status of an answer. -/
def Outcome.status : Outcome → Option Nat
  | .answered r => some r.status
  | .panicked => none

/-- Note an accepted write that carried an id. -/
def noteAccepted (job : Job) (o : Outcome) (now : Nat) (accepted : List (String × Nat)) :
    List (String × Nat) :=
  if o.status = some 200 then
    match writerId job.headers with
    | some id => (id, now) :: accepted
    | none => accepted
  else accepted

/-- One step of a mount, with the answer that a request gets. -/
def serve (opts : MountOptions) (s : Serving) : ServerEvent → Serving × Option Outcome
  | .arrive v r spool answer =>
      match receive opts v r spool answer with
      | .error o => (s, some o)
      | .ok job => ({ s with waiting := s.waiting ++ [job] }, none)
  | .proceed i env =>
      match s.waiting[i]? with
      | none => (s, none)
      | some job =>
          let (state, o) := complete opts s.state env job
          ({ state, waiting := s.waiting.eraseIdx i,
             accepted := noteAccepted job o env.commitAt s.accepted,
             past := s.state.bucket :: s.past }, some o)

/-- The states a mount reaches by events that meet `P`. -/
inductive ServingRun (opts : MountOptions) (P : Serving → ServerEvent → Prop) (s₀ : Serving) :
    Serving → Prop where
  | refl : ServingRun opts P s₀ s₀
  | step {s : Serving} (hr : ServingRun opts P s₀ s) (e : ServerEvent) (he : P s e) :
      ServingRun opts P s₀ (serve opts s e).1

/-- A mount that has served nothing. -/
def opened (m : MountState) : Serving := { state := m }

/-- Early checks leave the state of the mount alone. -/
theorem serve_arrive_state (s : Serving) (v : View) (r : Request) (spool : Spool)
    (answer : Response) :
    (serve opts s (.arrive v r spool answer)).1.state = s.state := by
  unfold serve
  dsimp only
  split <;> rfl

/-- What completing a waiting request makes of a mount. -/
theorem serve_proceed (opts : MountOptions) {s : Serving} {i : Nat} {job : Job}
    (h : s.waiting[i]? = some job) (env : Surroundings) :
    (serve opts s (.proceed i env)).1.state = (complete opts s.state env job).1 ∧
      (serve opts s (.proceed i env)).2 = some (complete opts s.state env job).2 := by
  unfold serve
  dsimp only
  rw [h]
  exact ⟨rfl, rfl⟩

/-- A request that nobody made is not completed. -/
theorem serve_proceed_none {s : Serving} {i : Nat} (h : s.waiting[i]? = none) (env : Surroundings) :
    serve opts s (.proceed i env) = (s, none) := by
  unfold serve
  dsimp only
  rw [h]

end Liters
