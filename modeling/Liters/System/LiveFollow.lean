import Liters.Replica.FollowSound
import Liters.System.EndToEnd

/-! # From the database to its followers

A producer turns level 0 of the bucket into a stream, as the bucket is at each listing and at each
open; the stream crosses a connection that cuts and delays it as it likes; the client tells events,
and the follower applies them. Every file that a follower is told is an L0 file of the writer, byte
by byte, so what a follower shows while it waits for the next event is a database that was
committed. -/

namespace Liters

open WalReader Local Script

/-! ## Level 0 holds what was uploaded -/

section
variable {c : Codec} {U : Uploads}

/-- A request that puts into level 0 puts an upload. -/
def L0Request (c : Codec) (U : Uploads) (_ : World) : Mutation → Prop
  | .put 0 s => s.body = (U.file s.minTxid).bytes c
  | _ => True

/-- Level 0 holds uploads as they were put. -/
def L0Bodies (c : Codec) (U : Uploads) (w : World) : Prop :=
  ∀ x ∈ w.bucket 0, x.body = (U.file x.minTxid).bytes c

/-- A request that ships to level 0 keeps level 0 the uploads. -/
theorem l0Bodies_step (w : World) (m : Mutation) (h : L0Bodies c U w) (hm : L0Request c U w m) :
    L0Bodies c U (w.act m) := by
  intro x hx
  cases m with
  | put level s =>
      rcases Nat.eq_zero_or_pos level with rfl | hpos
      · rw [World.act_put_same] at hx
        rcases Bucket.mem_insertFile.1 hx with rfl | hx
        · exact hm
        · exact h x hx
      · rw [World.act_put_of_ne _ _ hpos.ne] at hx
        exact h x hx
  | delete level minTxid maxTxid =>
      rcases Nat.eq_zero_or_pos level with rfl | hpos
      · rw [World.act_delete_same] at hx
        exact h x (List.mem_filter.mp hx).1
      · rw [World.act_delete_of_ne _ _ _ hpos.ne] at hx
        exact h x hx

/-- A script that puts nothing but uploads into level 0. -/
abbrev ShipsL0 (c : Codec) (U : Uploads) {α : Type} (p : Procedure α) : Prop :=
  Script.Safe World.act (fun _ => True) (L0Request c U) p

/-- Procedures that ship to level 0 do so one after the other. -/
theorem ShipsL0.andThen {α β : Type} {p : Procedure α} {q : α → Procedure β} (hp : ShipsL0 c U p)
    (hq : ∀ a, ShipsL0 c U (q a)) : ShipsL0 c U (p.andThen World.act q) :=
  Safe.andThen (fun _ _ _ _ => trivial) hp hq

/-- Doing nothing ships nothing else. -/
theorem shipsL0_done {α : Type} (a : α) : ShipsL0 c U (Script.done a : Procedure α) := safe_done a

/-- Deletions put nothing. -/
theorem l0Request_deleteLtxFiles (infos : List FileInfo) (w : World) :
    AllowedAll World.act (L0Request c U) w (Bucket.deleteLtxFiles infos) := by
  induction infos generalizing w with
  | nil => exact trivial
  | cons info infos ih => exact ⟨trivial, ih _⟩

/-- **An upload** ships its file to level 0. -/
theorem shipsL0_upload (createdAt : Option Int) : ShipsL0 c U (upload c U createdAt) := by
  intro w _
  unfold upload
  split
  · exact ⟨rfl, trivial⟩
  · exact trivial

/-- So do all uploads of a call. -/
theorem shipsL0_uploadPending (pending : List (Option Int)) :
    ShipsL0 c U (uploadPending c U pending) := by
  induction pending with
  | nil => exact shipsL0_done ()
  | cons createdAt pending ih => exact ShipsL0.andThen (shipsL0_upload createdAt) fun _ => ih

/-- A snapshot ships nothing else to level 0. -/
theorem shipsL0_snapshot (source : SnapshotSource U) (pending : List (Option Int))
    (createdAt : Option Int) :
    ShipsL0 c U (snapshot c U source pending createdAt) := by
  refine ShipsL0.andThen (shipsL0_uploadPending pending) fun _ => ?_
  intro w _
  dsimp only
  split
  · exact trivial
  · exact ⟨trivial, trivial⟩

/-- Neither does a compaction. -/
theorem shipsL0_compactLevel {level : Nat} (hlow : 1 ≤ level) (createdAt : Option Int) :
    ShipsL0 c U (compactLevel c level createdAt) := by
  obtain ⟨level, rfl⟩ : ∃ l, level = l + 1 := ⟨level - 1, by omega⟩
  intro w _
  unfold compactLevel
  split
  · exact trivial
  · dsimp only
    split
    · exact ⟨trivial, trivial⟩
    · exact trivial

/-- Neither does the retirement of snapshots. -/
theorem shipsL0_retireSnapshots (retention : Nat) (now : Int) :
    ShipsL0 c U (retireSnapshots retention now) := by
  intro w _
  unfold retireSnapshots
  dsimp only
  split
  · exact trivial
  · exact l0Request_deleteLtxFiles _ _

/-- Neither does the cascade over the levels. -/
theorem shipsL0_retireLevels (floor : Nat) (levels : List Nat) :
    ShipsL0 c U (retireLevels floor levels) := by
  induction levels with
  | nil => exact shipsL0_done 0
  | cons level levels ih =>
      refine ShipsL0.andThen ?_ fun _ => ShipsL0.andThen ih fun _ => shipsL0_done _
      intro w _
      unfold retireLevel
      dsimp only
      split
      · exact trivial
      · exact l0Request_deleteLtxFiles _ _

/-- Neither does the retention of level 0. -/
theorem shipsL0_enforceL0Retention (grace : Nat) (now : Int) :
    ShipsL0 c U (enforceL0Retention grace now) := by
  intro w _
  unfold enforceL0Retention
  dsimp only
  split
  · exact trivial
  · split
    · exact trivial
    · exact l0Request_deleteLtxFiles _ _

/-- Neither does retention as a whole. -/
theorem shipsL0_enforceRetention (opts : MaintenanceOptions) (now : Int) :
    ShipsL0 c U (enforceRetention opts now) := by
  refine ShipsL0.andThen (shipsL0_retireSnapshots _ _) fun result => ?_
  cases result with
  | none => exact shipsL0_done 0
  | some result =>
      refine ShipsL0.andThen ?_ fun _ => ShipsL0.andThen (shipsL0_enforceL0Retention _ _) fun _ =>
        shipsL0_done _
      split
      · exact shipsL0_done 0
      · exact shipsL0_retireLevels _ _

/-- Neither do the compactions of a maintenance run. -/
theorem shipsL0_compactDue (opts : MaintenanceOptions) (now : Int) (createdAt : Nat → Option Int)
    (intervals : List Nat) {level : Nat} (hlow : 1 ≤ level) :
    ShipsL0 c U (compactDue c opts now createdAt level intervals) := by
  induction intervals generalizing level with
  | nil => exact shipsL0_done 0
  | cons interval intervals ih =>
      refine ShipsL0.andThen ?_ fun compacted => ShipsL0.andThen ?_ fun _ =>
        ShipsL0.andThen (ih (Nat.le_succ_of_le hlow)) fun _ => shipsL0_done _
      · intro w hw
        dsimp only
        split
        · exact shipsL0_compactLevel hlow _ w hw
        · exact trivial
      · split
        · exact shipsL0_enforceL0Retention _ _
        · exact shipsL0_done 0

/-- Neither does a maintenance run. -/
theorem shipsL0_maintain (source : SnapshotSource U) (opts : MaintenanceOptions) (now : Int)
    (createdAt : Nat → Option Int) (pending : List (Option Int)) :
    ShipsL0 c U (maintain c U source opts now createdAt pending) := by
  refine ShipsL0.andThen (shipsL0_compactDue opts now createdAt _ le_rfl) fun _ =>
      ShipsL0.andThen ?_ fun _ =>
    ShipsL0.andThen ?_ fun _ => shipsL0_done _
  · intro w hw
    dsimp only
    split
    · exact shipsL0_snapshot _ _ _ w hw
    · exact trivial
  · split
    · exact shipsL0_enforceRetention _ _
    · exact shipsL0_done 0

/-- No operation puts anything else into level 0. -/
theorem Operation.requests_l0 (op : Operation U) (w : World) :
    AllowedAll World.act (L0Request c U) w (op.requests c w) := by
  cases op with
  | upload createdAt => exact shipsL0_upload createdAt w trivial
  | compactLevel level low high createdAt => exact shipsL0_compactLevel low createdAt w trivial
  | snapshot source pending createdAt => exact shipsL0_snapshot source pending createdAt w trivial
  | enforceRetention opts now => exact shipsL0_enforceRetention opts now w trivial
  | enforceL0Retention grace now => exact shipsL0_enforceL0Retention grace now w trivial
  | maintain source opts levels now createdAt pending =>
      exact shipsL0_maintain source opts now createdAt pending w trivial

/-- **Level 0 of every reachable bucket** holds uploads as they were put. -/
theorem Reachable.l0Bodies {w : World} (h : Reachable c U w) : L0Bodies c U w := by
  induction h with
  | start => exact fun x hx => by cases hx
  | step _ op k ih => exact (op.requests_l0 _).keeps_take l0Bodies_step ih k

end

/-! ## What a producer sends -/

/-- A file that a producer sends: one that it listed, as it opened it, cut to the listed size. -/
structure SentFrom (opened : Nat × Nat → Opened) (files : List Stored) (level minTxid maxTxid : Nat)
    (body : Bytes) :
    Prop where
  level : level = 0
  listed : ∃ f ∈ files, f.minTxid = minTxid ∧ f.maxTxid = maxTxid ∧
    ∃ bytes, opened f.key = .content bytes ∧
    body = bytes.take f.body.length

/-- A frame that is sent carries a listed file. -/
theorem mem_sendFiles {opened : Nat × Nat → Opened} {files : List Stored} {cursor : Nat}
    {frame : Frame} (h : frame ∈ (sendFiles opened cursor files).emitted.map Prod.fst) :
    ∃ level minTxid maxTxid body, frame = .ltx level minTxid maxTxid body ∧
      SentFrom opened files level minTxid maxTxid body := by
  induction files generalizing cursor with
  | nil => cases h
  | cons f files ih =>
      -- a frame belongs to the first file or to a later one
      have hlater : ∀ {cursor}, frame ∈ (sendFiles opened cursor files).emitted.map Prod.fst →
          ∃ level minTxid maxTxid body, frame = .ltx level minTxid maxTxid body ∧
            SentFrom opened (f :: files) level minTxid maxTxid body := by
        intro cursor h
        obtain ⟨level, minTxid, maxTxid, body, heq, hlevel, g, hg, hrest⟩ := ih h
        exact ⟨level, minTxid, maxTxid, body, heq, hlevel, g, List.mem_cons_of_mem _ hg, hrest⟩
      -- the first file is passed over, leaves a gap, does not open, or is sent
      unfold sendFiles at h
      split at h
      · exact hlater h
      · split at h
        · cases h
        · split at h
          · cases h
          · rename_i sent hsent
            dsimp only at h
            rw [List.map_cons] at h
            rcases List.mem_cons.mp h with rfl | h
            · unfold sendLtxFrame at hsent
              split at hsent
              · cases hsent
              · cases hsent
              · rename_i bytes hbytes
                split at hsent
                · cases hsent
                  exact ⟨0, _, _, _, rfl, rfl, f, List.mem_cons_self .., rfl, rfl, bytes,
                    hbytes, rfl⟩
                · cases hsent
            · exact hlater h

/-- Every file of a stream was sent in some round. -/
theorem mem_streamRounds {rounds : List StreamRound} {cursor level minTxid maxTxid : Nat}
    {body : Bytes}
    (h : Frame.ltx level minTxid maxTxid body ∈ (streamRounds cursor rounds).1.map Prod.fst) :
    ∃ r ∈ rounds, ∃ files, r.listed = some files ∧
      SentFrom r.opened files level minTxid maxTxid body := by
  induction rounds generalizing cursor with
  | nil => cases h
  -- a frame is sent in this round or in a later one
  | cons r rounds ih =>
      have hlater : ∀ {cursor},
          Frame.ltx level minTxid maxTxid body ∈ (streamRounds cursor rounds).1.map Prod.fst →
          ∃ r' ∈ r :: rounds, ∃ files, r'.listed = some files ∧
            SentFrom r'.opened files level minTxid maxTxid body := by
        intro cursor h
        obtain ⟨r', hr', hrest⟩ := ih h
        exact ⟨r', List.mem_cons_of_mem _ hr', hrest⟩
      unfold streamRounds at h
      -- a round ends the stream at once if it is cancelled or its listing fails
      split at h
      · cases h
      · split at h
        · cases h
        · rename_i files hfiles
          have hnow : Frame.ltx level minTxid maxTxid body ∈
              (sendFiles r.opened cursor files).emitted.map Prod.fst →
              ∃ r' ∈ r :: rounds, ∃ files, r'.listed = some files ∧
                SentFrom r'.opened files level minTxid maxTxid body := by
            intro hsent
            obtain ⟨_, _, _, _, heq, hfrom⟩ := mem_sendFiles hsent
            cases heq
            exact ⟨r, List.mem_cons_self .., files, hfiles, hfrom⟩
          dsimp only at h
          split at h
          · exact hnow h
          · rw [List.map_append] at h
            rcases List.mem_append.mp h with h | h
            · exact hnow h
            · simp at h
          · split at h
            · cases hidle : idleFrame r (maxOf files) cursor with
              | none =>
                  rw [hidle] at h
                  exact hlater h
              | some frame =>
                  rw [hidle] at h
                  rcases idleFrame_cases hidle with ⟨b, hb, rfl, hreset⟩ | ⟨m, rfl, hm⟩
                  · simp at h
                  · simp only [List.map_cons, List.mem_cons, reduceCtorEq, false_or] at h
                    exact hlater h
            · rw [List.map_append] at h
              rcases List.mem_append.mp h with h | h
              · exact hnow h
              · exact hlater h

/-- The frames of a stream behind its preamble. -/
def feedFrames (cursor : Nat) (first : Option Bucket) (rounds : List StreamRound) : List Frame :=
  ((writeTo cursor first rounds).1.map Prod.fst).tail

/-- A frame of the stream carries a file listed in one of its rounds. -/
theorem mem_feedFrames {cursor : Nat} {first : Option Bucket} {rounds : List StreamRound}
    {level minTxid maxTxid : Nat} {body : Bytes}
    (h : Frame.ltx level minTxid maxTxid body ∈ feedFrames cursor first rounds) :
    ∃ r ∈ rounds, ∃ files, r.listed = some files ∧
      SentFrom r.opened files level minTxid maxTxid body := by
  unfold feedFrames writeTo at h
  split at h
  · simp at h
  · exact mem_streamRounds h

/-! ## What a client is told -/

/-- What calls of `next` tell over a connection that carries some frames, whole or cut off, is one
of the frames, the end or an error. -/
theorem mem_toldBy {frames : List Frame} (hfits : ∀ f ∈ frames, f.Fits) {writes : List Bytes}
    (hwrites : writes.flatten = streamText frames) (hlen : ∀ w ∈ writes, w.length < 2 ^ 64)
    {src : Source IoError} (hdata : src.data <+: chunkedBody writes) {calls : Nat}
    (hcalls : src.weight < calls)
    {r : Except StreamError StreamEvent × Bytes} (hr : r ∈ toldBy src calls) :
    (∃ f ∈ frames, r = f.call) ∨ r = (.ok .closed, []) ∨ ∃ e sink, r = (.error e, sink) := by
  have hd := readChunked_delivers [] (@Source.delivers IoError)
  have hcalls' : (openStream src).body.inner.weight < calls := hcalls
  have hchunks : ∀ p clean, AtSize [] src.data p clean →
      ChunkedHolds Source.Holds [] (openStream src).body p clean := by
    intro p clean hsize
    refine ⟨src.data, src.ending.isNone, ⟨rfl, by simp [openStream]⟩, by simp [openStream], ?_⟩
    simpa [openStream] using hsize
  -- the frames that arrive, and how the connection ends behind them
  obtain ⟨clean, arrived, hsub, hholds⟩ : ∃ clean arrived, (∀ f ∈ arrived, f ∈ frames) ∧
      StreamHolds (ChunkedHolds Source.Holds []) (openStream src) clean arrived := by
    by_cases heq : src.data = chunkedBody writes
    · have hsize := atSize_chunkedBody hlen []
      rw [List.append_nil, ← heq, hwrites] at hsize
      exact ⟨true, frames, fun _ hf => hf, _, hchunks _ _ hsize,
        by simp [openStream], .frames (tells_frames hfits)⟩
    · obtain ⟨p, hp, hsize⟩ := exists_atSize_of_cut hlen [] hdata heq
      rw [hwrites] at hp
      rcases prefix_append_cases hp with ⟨hcut, hne⟩ | ⟨w, rfl, hw⟩
      · exact ⟨false, [], fun _ hf => (by cases hf), _, hchunks _ _ hsize,
          by simp [openStream], .cut hcut hne⟩
      · obtain ⟨k, hk⟩ := exists_tells_of_prefix hfits hw
        exact ⟨false, frames.take k, fun _ hf => List.mem_of_mem_take hf, _, hchunks _ _ hsize,
          by simp [openStream], .frames hk⟩
  have htold := nextCalls_told hd hholds hcalls'
  have hmem : r ∈ toldBy src calls := hr
  unfold toldBy at hmem
  have hcall : r ∈ arrived.map Frame.call → ∃ f ∈ frames, r = f.call := by
    intro h
    obtain ⟨f, hf, rfl⟩ := List.mem_map.mp h
    exact ⟨f, hsub f hf, rfl⟩
  cases clean with
  | true =>
      rw [if_pos rfl] at htold
      rw [htold] at hmem
      rcases List.mem_append.mp hmem with h | h
      · exact .inl (hcall h)
      · exact .inr (.inl (List.mem_singleton.mp h))
  | false =>
      rw [if_neg Bool.false_ne_true] at htold
      obtain ⟨e, sink, htold⟩ := htold
      rw [htold] at hmem
      rcases List.mem_append.mp hmem with h | h
      · exact .inl (hcall h)
      · exact .inr (.inr ⟨e, sink, List.mem_singleton.mp h⟩)

/-! ## Live followers -/

section
variable {c : Codec} {U : Uploads} {n : Nat}

/-- A round of a producer that lists and opens level 0 of buckets as the operations of the writer
leave them. -/
structure StreamRound.Sees (c : Codec) (U : Uploads) (n : Nat) (r : StreamRound) : Prop where
  listed : ∀ files, r.listed = some files →
    ∃ w, Reachable c U w ∧ w.uploaded ≤ n ∧ files = w.bucket 0
  opened : ∀ key bytes, r.opened key = .content bytes →
    ∃ w, Reachable c U w ∧ w.uploaded ≤ n ∧ ∃ x ∈ w.bucket 0, x.key = key ∧ bytes = x.body

/-- A connection that carries the stream of such a producer, whole or cut off anywhere. -/
def Source.Feeds (c : Codec) (U : Uploads) (n : Nat) (src : Source IoError) : Prop :=
  ∃ cursor first rounds writes, (∀ r ∈ rounds, StreamRound.Sees c U n r) ∧
    (∀ f ∈ feedFrames cursor first rounds, f.Fits) ∧
      writes.flatten = streamText (feedFrames cursor first rounds) ∧
    (∀ w ∈ writes, w.length < 2 ^ 64) ∧ src.data <+: chunkedBody writes

/-- The file of an event is one that a client told over such a connection. -/
def EventEnv.Hears (c : Codec) (U : Uploads) (n : Nat) (env : EventEnv) : Prop :=
  ∀ info, env.told = .ok (.ltx info) → ∃ src calls, Source.Feeds c U n src ∧ src.weight < calls ∧
    (.ok (.ltx info), env.spool) ∈ toldBy src calls

/-- **A file that is sent** is one of the bucket, byte by byte: what is opened under its name is
what was listed. -/
theorem SentFrom.storedOk (hc : c.Lawful) {r : StreamRound} (hsees : r.Sees c U n)
    {files : List Stored} (hfiles : r.listed = some files) {level minTxid maxTxid : Nat}
    {body : Bytes}
    (h : SentFrom r.opened files level minTxid maxTxid body) :
    ∃ f : Stored, StoredOk c U n f ∧ f.minTxid = minTxid ∧ f.maxTxid = maxTxid ∧ f.body = body := by
  obtain ⟨-, f, hf, hmin, hmax, bytes, hopened, rfl⟩ := h
  obtain ⟨w, hreach, hle, rfl⟩ := hsees.listed files hfiles
  obtain ⟨w', hreach', -, x, hx, hkey, rfl⟩ := hsees.opened f.key bytes hopened
  have hsame : x.body = f.body := by
    rw [hreach'.l0Bodies x hx, hreach.l0Bodies f hf, (Prod.mk.inj hkey).1]
  refine ⟨f, ((hreach.inv hc).files 0 f hf).mono hle, hmin, hmax, ?_⟩
  rw [hsame, List.take_length]

/-- What a follower hears is genuine. -/
theorem EventEnv.Hears.genuine (hc : c.Lawful) {env : EventEnv} (h : env.Hears c U n) :
    env.Genuine c U n := by
  intro info htold
  obtain ⟨src, calls, ⟨cursor, first, rounds, writes, hsees, hfits, hwrites, hlen, hdata⟩, hcalls,
    hmem⟩ := h info htold
  rcases mem_toldBy hfits hwrites hlen hdata hcalls hmem
    with ⟨frame, hframe, heq⟩ | heq | ⟨e, sink, heq⟩
  · obtain ⟨hevent, hspool⟩ := Prod.mk.inj heq
    have hevent : StreamEvent.ltx info = frame.told := Except.ok.inj hevent
    cases frame with
    | ltx level minTxid maxTxid body =>
        obtain rfl : info = ⟨level, minTxid, maxTxid, body.length⟩ := StreamEvent.ltx.inj hevent
        obtain ⟨r, hr, files, hfiles, hfrom⟩ := mem_feedFrames hframe
        obtain ⟨f, hf, hmin, hmax, hbody⟩ := hfrom.storedOk hc (hsees r hr) hfiles
        obtain ⟨g, hg, hok, hgmin, hgmax⟩ := hf.fileOk
        exact ⟨g, hspool.trans (hbody.symm.trans hg), hok, hgmin.trans hmin, hgmax.trans hmax⟩
    | preamble => cases hevent
    | ping m => cases hevent
    | gap next => cases hevent
    | reset m => cases hevent
  · cases heq
  · cases heq

/-- What a live follower meets: buckets as the operations of the writer leave them, in careful syncs
and over the stream. -/
def FollowInput.Live (c : Codec) (U : Uploads) (n : Nat) (opts : ReplicaOptions) (s : Following) :
    FollowInput → Prop
  | .round env => env.sync.Sees c U n ∧ Careful c U opts env.sync s.site
  | .event env => env.Hears c U n

/-- What a replica that begins with an empty directory goes through while it follows the bucket
live. -/
inductive LiveRun (c : Codec) (U : Uploads) (n : Nat) : Following → Prop where
  | start : LiveRun c U n { site := ⟨⟨none, none⟩, 0, true⟩ }
  | step {s : Following} (h : LiveRun c U n s) (opts : ReplicaOptions) (fopts : FollowOptions)
      (input : FollowInput)
      (hlive : input.Live c U n opts s) : LiveRun c U n (followStep c opts fopts s input)
  | restart {s : Following} (h : LiveRun c U n s) : LiveRun c U n { site := s.site }

/-- **A live run** leaves what a follower may rely on. -/
theorem LiveRun.followed (hc : c.Lawful) {s : Following} (h : LiveRun c U n s) :
    Followed c U n s := by
  induction h with
  | start => exact .start
  | step _ opts fopts input hlive ih =>
      refine ih.step opts fopts input ?_
      cases input with
      | round env => exact ⟨hlive.1.of hc, hlive.2⟩
      | event env => exact hlive.genuine hc
  | restart _ ih => exact ih.restart

/-- **What a follower shows was committed.** A writer and the applications live with a database; its
L0 files are uploaded and maintained, each operation cut after any request; a producer streams level
0 as it finds it, over connections that cut and delay; a replica, from an empty directory on, syncs
with care, follows the stream, fails, is killed and starts again, at any step. Whenever a session
waits for its next event, the position file says the session's position, and the file in place is
the database at which the L0 file of that transaction was written. -/
theorem follower_shows_committed (hc : c.Lawful) {pageSize : Nat} {d₀ : LiveDb} {s : Local.Session}
    {past : List (Image Bytes)} (hstart : Tracked pageSize d₀) (hnew : d₀.chain = [])
    (hlife : Life c pageSize d₀ s past) (hships : Ships pageSize s.db.chain U)
    (hpast : past.length < 2 ^ 64 - 1) {f : Following} (hrun : LiveRun c U past.length f)
    {session : StreamSession} (hphase : f.phase = .streaming session) :
    ∃ db img, f.site.disk.db = some db ∧ f.site.disk.txid = some (txidLine session.position) ∧
      committedAt pageSize past session.position = some img ∧
      SameDatabase pageSize (lockPgno pageSize) db
        (img.toBytes (lockPgno pageSize) (zeroPage pageSize)) := by
  have hok := (hrun.followed hc).ok hc hpast
  unfold Following.Ok at hok
  rw [hphase] at hok
  obtain ⟨⟨db, hdb, hheld⟩, htxid, -, -⟩ := hok
  obtain ⟨img, himg, hbytes⟩ := image_of_life hstart hnew hlife hships hheld.bound
  have hsame := hheld.sameDatabase hpast
  rw [Uploads.image, hbytes, hships.size, hships.lock_eq] at hsame
  exact ⟨db, img, hdb, htxid, himg, hsame⟩

end

/-- A follower with an empty directory restores the two commits of a database, and then hears of a
ping. -/
theorem follower_shows_committed_third :
    ∃ s past U w f session, Life literalCodec 512 freshDb s past ∧ Reachable literalCodec U w ∧
      followSteps literalCodec ⟨.none, false, false⟩ ⟨true⟩ { site := ⟨⟨none, none⟩, 0, true⟩ }
        [.round (calmRound w.bucket), .event (calmEvent (.ok (.idle (some 2))) [])] = f ∧
      f.phase = .streaming session ∧ session.position = 2 ∧
      ∃ db img, f.site.disk.db = some db ∧ f.site.disk.txid = some (txidLine session.position) ∧
        committedAt 512 past session.position = some img ∧
        SameDatabase 512 (lockPgno 512) db (img.toBytes (lockPgno 512) (zeroPage 512)) := by
  obtain ⟨s, past, U, w, hlife, hlength, hships, hreach, huploaded⟩ := shipped_freshDb
  have hpast : past.length < 2 ^ 64 - 1 := by omega
  -- the first round restores from the files in the bucket
  obtain ⟨plan, last, hplan, -, hlast, hmax⟩ :=
    (hreach.inv literalCodec_lawful).exists_plan (by omega)
  have hfaithful : Faithful literalCodec U past.length w.bucket :=
    hreach.faithful literalCodec_lawful (by omega)
  obtain ⟨image, hprep⟩ := hfaithful.prepare literalCodec_lawful hpast hplan hlast "ok"
  obtain ⟨site, hsync⟩ := restoreSite_calmEnv ⟨⟨none, none⟩, 0, true⟩ hprep
  have htwo : last.maxTxid = 2 := hmax.trans huploaded
  rw [htwo] at hsync
  have hsync : syncWith literalCodec ⟨.none, false, false⟩ (calmSync w.bucket)
      ⟨⟨none, none⟩, 0, true⟩
      = (.ok ⟨true, 0, 2⟩, site) := hsync
  have hsees : (calmSync w.bucket).Sees literalCodec U past.length := by
    constructor
    · exact fun _ => ⟨w, hreach, by omega, rfl⟩
    · exact fun _ => ⟨w, hreach, by omega, rfl⟩
  have hcare : Careful literalCodec U ⟨.none, false, false⟩ (calmSync w.bucket)
      ⟨⟨none, none⟩, 0, true⟩ := by
    refine ⟨fun _ p hdb => absurd rfl hdb, fun hrooted => ?_,
      calmEnv_uncut w.bucket literalCodec rfl⟩
    cases hrooted
  have hsite : HoldsAt U past.length 2 site :=
    Sound.sync_holdsAt (.inl rfl) literalCodec_lawful hpast
    (hsees.of literalCodec_lawful) hcare hsync
  -- the round opens a session at the position it reached
  obtain ⟨pageSize, hround⟩ := @followStep_calmRound _ _ ⟨true⟩ _ _ _
    { site := ⟨⟨none, none⟩, 0, true⟩ } _ _ _ _ rfl rfl hsync hsite hpast (by decide)
  have hfirst : LiveRun literalCodec U past.length _ :=
    LiveRun.start.step ⟨.none, false, false⟩ ⟨true⟩
    (.round (calmRound w.bucket)) ⟨hsees, hcare⟩
  -- a ping that tells the same position changes nothing
  have hsecond := hfirst.step ⟨.none, false, false⟩ ⟨true⟩
    (.event (calmEvent (.ok (.idle (some 2))) []))
    fun info htold => by cases htold
  obtain ⟨⟨db, hdb, -⟩, -, -, -⟩ := hsite
  have hrun : (followSteps literalCodec ⟨.none, false, false⟩ ⟨true⟩
      { site := ⟨⟨none, none⟩, 0, true⟩ }
      [.round (calmRound w.bucket), .event (calmEvent (.ok (.idle (some 2))) [])]).phase
        = .streaming ⟨0, pageSize, 2, true⟩ := by
    unfold followSteps
    rw [List.foldl_cons, hround, List.foldl_cons, List.foldl_nil]
    obtain ⟨⟨disk, txid⟩, reached, rooted⟩ := site
    obtain rfl : disk = some db := hdb
    rfl
  obtain ⟨db, img, hrest⟩ :=
    follower_shows_committed literalCodec_lawful tracked_freshDb rfl hlife hships hpast hsecond
    hrun
  exact ⟨s, past, U, w, _, _, hlife, hreach, rfl, hrun, rfl, db, img, hrest⟩

end Liters
