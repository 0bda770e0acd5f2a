import Liters.Http.Mount

/-! # The follow feed

A stream sends a follower the transactions behind its position as they appear in level 0
(`LtxStreamBody`, `Replica::follow`). The producer keeps a cursor, the next transaction to send, and
judges every listed file by it; the follower keeps its position and judges every frame by that. What
the bucket is at each listing and at each open is up to the surroundings. -/

namespace Liters

/-! ## The producer -/

/-- A frame of the stream. -/
inductive Frame where
  | preamble
  | ltx (level minTxid maxTxid : Nat) (body : Bytes)
  | ping (bucketMax : Nat)
  | gap (next : Nat)
  | reset (bucketMax : Nat)
  deriving DecidableEq

/-- What opening a listed file and reading it comes to. -/
inductive Opened where
  | content (bytes : Bytes)
  | notFound
  | failed

/-- What the surroundings decide in one round of the producer. The listings are those of the moments
at which the producer asks for them. -/
structure StreamRound where
  cancelled : Bool
  listed : Option (List Stored)
  opened : Nat × Nat → Opened
  /-- The bucket-wide listing that confirms a level 0 behind the follower. -/
  checked : Option Bucket
  pingDue : Bool
  pinged : Option Bucket

/-- A non-empty bucket whose maximum is below the follower's position. -/
def isReset (bucketMax cursor : Nat) : Bool := bucketMax ≠ 0 && bucketMax < cursor - 1

/-- How the loop over a listing ends. -/
inductive LoopEnd where
  | listedAll
  | gap (next : Nat)
  /-- A file disappeared between listing and opening. -/
  | relist
  | aborted

/-- What the loop over a listing sends, each frame with the cursor behind it. -/
structure Sent where
  emitted : List (Frame × Nat)
  cursor : Nat
  stop : LoopEnd

/-- One `ltx` frame; a file that is shorter than its listed size aborts the stream. -/
def sendLtxFrame (f : Stored) : Opened → Except LoopEnd Frame
  | .notFound => .error .relist
  | .failed => .error .aborted
  | .content bytes =>
      if (bytes.take f.body.length).length = f.body.length then
        .ok (.ltx 0 f.minTxid f.maxTxid (bytes.take f.body.length))
      else .error .aborted

/-- The loop over a listing. -/
def sendFiles (opened : Nat × Nat → Opened) (cursor : Nat) : List Stored → Sent
  | [] => ⟨[], cursor, .listedAll⟩
  | f :: files =>
      if f.maxTxid < cursor then sendFiles opened cursor files
      else if cursor < f.minTxid then ⟨[], cursor, .gap f.minTxid⟩
      else
        match sendLtxFrame f (opened f.key) with
        | .error stop => ⟨[], cursor, stop⟩
        | .ok frame =>
            let sent := sendFiles opened (f.maxTxid + 1) files
            { sent with emitted := (frame, f.maxTxid + 1) :: sent.emitted }

/-- What a round without progress sends: evidence of a reset, a ping, or nothing. -/
def idleFrame (r : StreamRound) (l0Max cursor : Nat) : Option Frame :=
  match (if isReset l0Max cursor then r.checked else none).filter fun b =>
    isReset (bucketMax b) cursor with
  | some b => some (.reset (bucketMax b))
  | none =>
      if r.pingDue then
        let m := (r.pinged.map bucketMax).getD 0
        if isReset m cursor then some (.reset m) else some (.ping m)
      else none

/-- How a stream stands: it goes on, it ended cleanly, or it was torn down. -/
inductive StreamEnd where
  | running
  | closed
  | aborted
  deriving DecidableEq

/-- The rounds of the producer. -/
def streamRounds (cursor : Nat) : List StreamRound → List (Frame × Nat) × StreamEnd
  | [] => ([], .running)
  | r :: rounds =>
      if r.cancelled then ([], .closed)
      else
        match r.listed with
        | none => ([], .aborted)
        | some files =>
            let sent := sendFiles r.opened cursor files
            match sent.stop with
            | .aborted => (sent.emitted, .aborted)
            | .gap next => (sent.emitted ++ [(.gap next, sent.cursor)], .closed)
            | _ =>
                if sent.emitted = [] then
                  match idleFrame r (maxOf files) cursor with
                  | some (.reset m) => ([(.reset m, cursor)], .closed)
                  | some frame =>
                      let (emitted, ending) := streamRounds cursor rounds
                      ((frame, cursor) :: emitted, ending)
                  | none => streamRounds cursor rounds
                else
                  let (emitted, ending) := streamRounds sent.cursor rounds
                  (sent.emitted ++ emitted, ending)

/-- The whole stream for a follower at `cursor - 1`: preamble, a first look at the whole bucket,
rounds. -/
def writeTo (cursor : Nat) (first : Option Bucket) (rounds : List StreamRound) :
    List (Frame × Nat) × StreamEnd :=
  match first.filter fun b => isReset (bucketMax b) cursor with
  | some b => ([(.preamble, cursor), (.reset (bucketMax b), cursor)], .closed)
  | none =>
      let (emitted, ending) := streamRounds cursor rounds
      ((.preamble, cursor) :: emitted, ending)

/-! ## The follower -/

/-- What a follower does with a frame. -/
inductive FollowBranch where
  | applied (position : Nat)
  | applyFailed
  | stale
  | gapped
  /-- A ping that shows the bucket behind the follower. -/
  | behind
  | idle
  | ended
  deriving DecidableEq

/-- The branch a follower takes; `applies` says whether the file can be applied. -/
def followBranch (applies : Bool) (position : Nat) : Frame → FollowBranch
  | .preamble => .idle
  | .ltx _ minTxid maxTxid _ =>
      if maxTxid ≤ position then .stale
      else if !isContiguous position minTxid maxTxid then .gapped
      else if applies then .applied maxTxid
      else .applyFailed
  | .ping m => if m ≠ 0 ∧ m < position then .behind else .idle
  | .gap _ => .ended
  | .reset _ => .ended

/-- A follower at its frames: its position as long as it stays with the stream. -/
def followFrames (applies : Frame → Bool) (position : Nat) : List Frame → Option Nat
  | [] => some position
  | frame :: frames =>
      match followBranch (applies frame) position frame with
      | .applied position' => followFrames applies position' frames
      | .stale => followFrames applies position frames
      | .idle => followFrames applies position frames
      | _ => none

/-! ## What a stream can consist of -/

/-- A listed file that covers a transaction. -/
def Stored.Covers (f : Stored) (t : Nat) : Prop := f.minTxid ≤ t ∧ t ≤ f.maxTxid

/-- Level-0 listings as backends give them: in order, with transactions below the last 64-bit
number. -/
structure WellListed (files : List Stored) : Prop where
  sorted : files.Pairwise Stored.Before
  below : ∀ f ∈ files, f.maxTxid + 1 < 2 ^ 64

/-- Why a gap is reported: nothing listed covers the next transaction, and something comes later. -/
def Missing (files : List Stored) (cursor next : Nat) : Prop :=
  (∀ f ∈ files, ¬ f.Covers cursor) ∧ ∃ f ∈ files, f.minTxid = next ∧ cursor < f.minTxid

/-- All that a stream can consist of, frame by frame from a cursor. `listings` are the level-0
listings, `buckets` the bucket-wide ones. -/
inductive Fed (listings : List (List Stored)) (buckets : List Bucket) :
    Nat → List (Frame × Nat) → Prop where
  | done (cursor : Nat) : Fed listings buckets cursor []
  | preamble {cursor : Nat} {rest : List (Frame × Nat)} (h : Fed listings buckets cursor rest) :
      Fed listings buckets cursor ((.preamble, cursor) :: rest)
  | ltx {cursor level minTxid maxTxid : Nat} {body : Bytes} {rest : List (Frame × Nat)}
      (hmin : minTxid ≤ cursor) (hmax : cursor ≤ maxTxid) (hlt : maxTxid + 1 < 2 ^ 64)
      (h : Fed listings buckets (maxTxid + 1) rest) :
      Fed listings buckets cursor ((.ltx level minTxid maxTxid body, maxTxid + 1) :: rest)
  | ping {cursor m : Nat} {rest : List (Frame × Nat)} (hm : isReset m cursor = false)
      (h : Fed listings buckets cursor rest) :
      Fed listings buckets cursor ((.ping m, cursor) :: rest)
  | gap {cursor next : Nat} {files : List Stored} (hfiles : files ∈ listings)
      (h : Missing files cursor next) : Fed listings buckets cursor [(.gap next, cursor)]
  | reset {cursor : Nat} {b : Bucket} (hb : b ∈ buckets) (h : isReset (bucketMax b) cursor) :
      Fed listings buckets cursor [(.reset (bucketMax b), cursor)]

/-- The level-0 listings of some rounds. -/
def listingsOf (rounds : List StreamRound) : List (List Stored) :=
  rounds.filterMap StreamRound.listed

/-- The bucket-wide listings of some rounds. -/
def bucketsOf (rounds : List StreamRound) : List Bucket :=
  rounds.flatMap fun r => r.checked.toList ++ r.pinged.toList

/-- More listings and more buckets feed what fewer did. -/
theorem Fed.mono {listings listings' : List (List Stored)} {buckets buckets' : List Bucket}
    {cursor : Nat} {emitted : List (Frame × Nat)} (h : Fed listings buckets cursor emitted)
    (hl : listings ⊆ listings') (hb : buckets ⊆ buckets') :
    Fed listings' buckets' cursor emitted := by
  induction h with
  | done => exact .done _
  | preamble _ ih => exact .preamble ih
  | ltx hmin hmax hlt _ ih => exact .ltx hmin hmax hlt ih
  | ping hm _ ih => exact .ping hm ih
  | gap hfiles h => exact .gap (hl hfiles) h
  | reset hmem h => exact .reset (hb hmem) h

/-! ## The producer sends nothing else -/

section Producer

variable {listings : List (List Stored)} {buckets : List Bucket} {opened : Nat × Nat → Opened}

/-- A file's frame carries its TXIDs and as many bytes as the file has. -/
theorem sendLtxFrame_eq {f : Stored} {o : Opened} {frame : Frame}
    (h : sendLtxFrame f o = .ok frame) :
    ∃ body, frame = .ltx 0 f.minTxid f.maxTxid body ∧ body.length = f.body.length := by
  unfold sendLtxFrame at h
  split at h
  · cases h
  · cases h
  · split at h
    · rename_i hlen
      cases h
      exact ⟨_, rfl, hlen⟩
    · cases h

/-- The frames of one listing are a stretch of the stream that ends at its cursor. -/
theorem sendFiles_fed {files : List Stored} (hbelow : ∀ f ∈ files, f.maxTxid + 1 < 2 ^ 64)
    (cursor : Nat) {rest : List (Frame × Nat)}
    (hrest : Fed listings buckets (sendFiles opened cursor files).cursor rest) :
    Fed listings buckets cursor ((sendFiles opened cursor files).emitted ++ rest) := by
  induction files generalizing cursor with
  | nil => exact hrest
  | cons f files ih =>
      have hfiles : ∀ g ∈ files, g.maxTxid + 1 < 2 ^ 64 := fun g hg =>
        hbelow g (List.mem_cons_of_mem _ hg)
      unfold sendFiles at hrest ⊢
      split
      · -- a file behind the cursor is passed over
        rename_i hold
        rw [if_pos hold] at hrest
        exact ih hfiles cursor hrest
      · rename_i hold
        rw [if_neg hold] at hrest
        split
        · -- a gap ends the files of this round
          rename_i hgap
          rw [if_pos hgap] at hrest
          exact hrest
        · rename_i hgap
          rw [if_neg hgap] at hrest
          cases hsend : sendLtxFrame f (opened f.key) with
          | error stop =>
              rw [hsend] at hrest
              exact hrest
          -- the frame goes out and the cursor moves behind it
          | ok frame =>
              rw [hsend] at hrest
              obtain ⟨body, rfl, -⟩ := sendLtxFrame_eq hsend
              exact .ltx (Nat.not_lt.mp hgap) (Nat.not_lt.mp hold)
                (hbelow f (List.mem_cons_self ..))
                (ih hfiles _ hrest)

/-- The cursor never goes back. -/
theorem le_sendFiles_cursor (files : List Stored) (cursor : Nat) :
    cursor ≤ (sendFiles opened cursor files).cursor := by
  induction files generalizing cursor with
  | nil => exact Nat.le_refl _
  | cons f files ih =>
      unfold sendFiles
      split
      · exact ih cursor
      · rename_i hold
        split
        · exact Nat.le_refl _
        · cases sendLtxFrame f (opened f.key) with
          | error stop => exact Nat.le_refl _
          | ok frame =>
              have := ih (f.maxTxid + 1)
              show cursor ≤ (sendFiles opened (f.maxTxid + 1) files).cursor
              omega

/-- Where the loop reports a gap there is one. -/
theorem sendFiles_gap {files : List Stored} (hsorted : files.Pairwise Stored.Before)
    {cursor next : Nat} (h : (sendFiles opened cursor files).stop = .gap next) :
    Missing files (sendFiles opened cursor files).cursor next := by
  induction files generalizing cursor with
  | nil => cases h
  | cons f files ih =>
      obtain ⟨hf, hfiles⟩ := List.pairwise_cons.mp hsorted
      -- a file that ends before the cursor of the gap does not cover it
      have hcons : ∀ c, f.maxTxid < c → Missing files c next → Missing (f :: files) c next := by
        rintro c hlt ⟨hnone, g, hg, hnext⟩
        refine ⟨fun x hx => ?_, g, List.mem_cons_of_mem _ hg, hnext⟩
        rcases List.mem_cons.mp hx with rfl | hx
        · rintro ⟨-, hmax⟩
          omega
        · exact hnone x hx
      unfold sendFiles at h ⊢
      split
      · rename_i hold
        rw [if_pos hold] at h
        exact hcons _ (hold.trans_le (le_sendFiles_cursor files cursor)) (ih hfiles h)
      · rename_i hold
        rw [if_neg hold] at h
        split
        · rename_i hgap
          rw [if_pos hgap] at h
          cases h
          refine ⟨fun x hx => ?_, f, List.mem_cons_self .., rfl, hgap⟩
          rintro ⟨hmin, -⟩
          change x.minTxid ≤ cursor at hmin
          rcases List.mem_cons.mp hx with rfl | hx
          · omega
          · have := hf x hx
            unfold Stored.Before at this
            omega
        · rename_i hgap
          rw [if_neg hgap] at h
          cases hsend : sendLtxFrame f (opened f.key) with
          | error stop =>
              rw [hsend] at h
              cases hopen : opened f.key with
              | notFound => rw [hopen] at hsend; cases hsend; cases h
              | failed => rw [hopen] at hsend; cases hsend; cases h
              | content bytes =>
                  rw [hopen, sendLtxFrame] at hsend
                  split at hsend
                  · cases hsend
                  · cases hsend
                    cases h
          | ok frame =>
              rw [hsend] at h
              exact hcons _ (Nat.lt_of_succ_le (le_sendFiles_cursor files (f.maxTxid + 1)))
                (ih hfiles h)

/-- The frame of a round without progress. -/
theorem idleFrame_cases {r : StreamRound} {l0Max cursor : Nat} {frame : Frame}
    (h : idleFrame r l0Max cursor = some frame) :
    (∃ b ∈ r.checked.toList ++ r.pinged.toList, frame = .reset (bucketMax b) ∧
        isReset (bucketMax b) cursor = true) ∨
      ∃ m, frame = .ping m ∧ isReset m cursor = false := by
  unfold idleFrame at h
  -- level 0 ends below the cursor, and the bucket that was looked at ends there too
  split at h
  · rename_i b hb
    cases h
    obtain ⟨hb, hreset⟩ := Option.filter_eq_some_iff.mp hb
    split at hb
    · exact .inl ⟨b, by simp [hb], rfl, hreset⟩
    · cases hb
  · -- a ping is due
    split at h
    · dsimp only at h
      split at h
      · rename_i hreset
        cases h
        cases hp : r.pinged with
        | none =>
            rw [hp] at hreset
            cases hreset
        | some b =>
            rw [hp] at hreset
            exact .inl ⟨b, by simp, rfl, hreset⟩
      · rename_i hreset
        cases h
        exact .inr ⟨_, rfl, by simpa using hreset⟩
    · cases h

/-- The rounds of the producer. -/
theorem streamRounds_fed {rounds : List StreamRound}
    (hlisted : ∀ files ∈ listingsOf rounds, WellListed files) (cursor : Nat) :
    Fed (listingsOf rounds) (bucketsOf rounds) cursor (streamRounds cursor rounds).1 := by
  induction rounds generalizing cursor with
  | nil => exact .done _
  | cons r rounds ih =>
      -- what the later rounds list is listed in all
      have hlater : listingsOf rounds ⊆ listingsOf (r :: rounds) := by
        unfold listingsOf
        rw [List.filterMap_cons]
        split
        · exact fun _ h => h
        · exact fun _ h => List.mem_cons_of_mem _ h
      have hbuckets : bucketsOf rounds ⊆ bucketsOf (r :: rounds) := by
        unfold bucketsOf
        rw [List.flatMap_cons]
        exact fun _ h => List.mem_append_right _ h
      have hnext : ∀ c, Fed (listingsOf (r :: rounds)) (bucketsOf (r :: rounds)) c
          (streamRounds c rounds).1 := fun c =>
        (ih (fun files hfiles => hlisted files (hlater hfiles)) c).mono hlater hbuckets
      unfold streamRounds
      split
      · exact .done _
      · split
        · exact .done _
        · rename_i files hfiles
          have hmem : files ∈ listingsOf (r :: rounds) :=
            List.mem_filterMap.mpr ⟨r, List.mem_cons_self .., hfiles⟩
          have hwell := hlisted files hmem
          have hsent : ∀ rest, Fed (listingsOf (r :: rounds)) (bucketsOf (r :: rounds))
              (sendFiles r.opened cursor files).cursor rest →
              Fed (listingsOf (r :: rounds)) (bucketsOf (r :: rounds)) cursor
                ((sendFiles r.opened cursor files).emitted ++ rest) :=
            fun rest hrest => sendFiles_fed hwell.below cursor hrest
          dsimp only
          split
          · have := hsent _ (.done _)
            rwa [List.append_nil] at this
          · rename_i next hstop
            exact hsent _ (.gap hmem (sendFiles_gap hwell.sorted hstop))
          · split
            · cases hidle : idleFrame r (maxOf files) cursor with
              | none => exact hnext cursor
              | some frame =>
                  rcases idleFrame_cases hidle with ⟨b, hb, rfl, hreset⟩ | ⟨m, rfl, hm⟩
                  · exact .reset (List.mem_flatMap.mpr ⟨r, List.mem_cons_self .., hb⟩) hreset
                  · exact .ping hm (hnext cursor)
            · exact hsent _ (hnext _)

/-- The whole stream. -/
theorem writeTo_fed {rounds : List StreamRound}
    (hlisted : ∀ files ∈ listingsOf rounds, WellListed files) (cursor : Nat)
    (first : Option Bucket) :
    Fed (listingsOf rounds) (first.toList ++ bucketsOf rounds) cursor
      (writeTo cursor first rounds).1 := by
  unfold writeTo
  split
  · rename_i b hb
    obtain ⟨hb, hreset⟩ := Option.filter_eq_some_iff.mp hb
    exact .preamble (.reset (by simp [hb]) hreset)
  · exact .preamble ((streamRounds_fed hlisted cursor).mono (fun _ h => h)
      fun _ h => List.mem_append_right _ h)

end Producer

/-! ## Producer and follower -/

/-- The cursor behind some frames. -/
def cursorAfter (cursor : Nat) (emitted : List (Frame × Nat)) : Nat :=
  (emitted.getLast?.map Prod.snd).getD cursor

/-- The last transaction of an `ltx` frame. -/
def Frame.maxTxid? : Frame → Option Nat
  | .ltx _ _ maxTxid _ => some maxTxid
  | _ => none

/-- An `ltx` frame that covers a transaction. -/
def Frame.Covers (t : Nat) : Frame → Prop
  | .ltx _ minTxid maxTxid _ => minTxid ≤ t ∧ t ≤ maxTxid
  | _ => False

/-- The cursor after a frame and more frames. -/
@[simp] theorem cursorAfter_cons (cursor : Nat) (e : Frame × Nat) (emitted : List (Frame × Nat)) :
    cursorAfter cursor (e :: emitted) = cursorAfter e.2 emitted := by
  unfold cursorAfter
  cases emitted with
  | nil => rfl
  | cons x xs => rw [List.getLast?_cons_cons, List.getLast?_cons]; rfl

/-- The branches that a follower of this producer takes. -/
structure Branches (applies : Frame → Bool) (position : Nat) (frame : Frame) : Prop where
  not_stale : followBranch (applies frame) position frame ≠ .stale
  not_gapped : followBranch (applies frame) position frame ≠ .gapped
  not_behind : followBranch (applies frame) position frame ≠ .behind
  contiguous : ∀ level minTxid maxTxid body, frame = .ltx level minTxid maxTxid body →
    isContiguous position minTxid maxTxid = true

/-- A follower that is still with the stream after some frames: the cursor is right behind its
position, the frames cover all the way, and the next frame fits. -/
structure InStep (applies : Frame → Bool) (p : Nat) (emitted : List (Frame × Nat)) (k q : Nat) :
    Prop where
  cursor : cursorAfter (p + 1) (emitted.take k) = q + 1
  forward : p ≤ q
  covered : ∀ t, p < t → t ≤ q → ∃ frame ∈ (emitted.take k).map Prod.fst, frame.Covers t
  next : ∀ e, emitted[k]? = some e → Branches applies q e.1

variable {listings : List (List Stored)} {buckets : List Bucket}

/-- A frame that starts by the cursor and reaches it fits a follower right before the cursor. -/
theorem isContiguous_of_cursor {position minTxid maxTxid : Nat} (hmin : minTxid ≤ position + 1)
    (hmax : position + 1 ≤ maxTxid) (hlt : maxTxid + 1 < 2 ^ 64) :
    isContiguous position minTxid maxTxid = true := by
  rw [isContiguous, wrappingSucc_of_lt (by omega), Bool.and_eq_true, decide_eq_true_eq,
    decide_eq_true_eq]
  omega

/-- The first frame of a stream fits the follower it was made for. -/
theorem Fed.branches (applies : Frame → Bool) {p : Nat} {e : Frame × Nat}
    {rest : List (Frame × Nat)} (h : Fed listings buckets (p + 1) (e :: rest)) :
    Branches applies p e.1 := by
  cases h with
  -- the preamble has no position
  | preamble h =>
      exact ⟨by simp [followBranch], by simp [followBranch], by simp [followBranch], by simp⟩
  -- a file starts right behind the cursor, so it is new and contiguous
  | @ltx _ level minTxid maxTxid body _ hmin hmax hlt h =>
      have hcont := isContiguous_of_cursor hmin hmax hlt
      have hnew : ¬ maxTxid ≤ p := by omega
      have hbranch : followBranch (applies (.ltx level minTxid maxTxid body)) p
          (.ltx level minTxid maxTxid body) = .applied maxTxid ∨
          followBranch (applies (.ltx level minTxid maxTxid body)) p
            (.ltx level minTxid maxTxid body) = .applyFailed := by
        rw [followBranch, if_neg hnew, hcont]
        cases applies (.ltx level minTxid maxTxid body) with
        | false => exact .inr rfl
        | true => exact .inl rfl
      refine ⟨?_, ?_, ?_, ?_⟩
      · rcases hbranch with h | h <;> rw [h] <;> simp
      · rcases hbranch with h | h <;> rw [h] <;> simp
      · rcases hbranch with h | h <;> rw [h] <;> simp
      · intro level' minTxid' maxTxid' body' heq
        cases heq
        exact hcont
  -- a reset would have been sent in place of this ping
  | @ping _ m _ hm h =>
      have hidle : followBranch (applies (.ping m)) p (.ping m) = .idle := by
        rw [followBranch, if_neg]
        rintro ⟨hpos, hlt⟩
        have : isReset m (p + 1) = true := by simp [isReset, hpos, hlt]
        rw [this] at hm
        cases hm
      exact ⟨by simp [hidle], by simp [hidle], by simp [hidle], by simp⟩
  | gap hfiles h =>
      exact ⟨by simp [followBranch], by simp [followBranch], by simp [followBranch], by simp⟩
  | reset hb h =>
      exact ⟨by simp [followBranch], by simp [followBranch], by simp [followBranch], by simp⟩

/-- A frame that leaves follower and cursor where they are. -/
theorem InStep.skip {applies : Frame → Bool} {p k q : Nat} {frame : Frame}
    {rest : List (Frame × Nat)} (h : InStep applies p rest k q) :
    InStep applies p ((frame, p + 1) :: rest) (k + 1) q where
  cursor := by
    rw [List.take_succ_cons, cursorAfter_cons]
    exact h.cursor
  forward := h.forward
  covered := by
    intro t hp hq
    obtain ⟨fr, hfr, hcov⟩ := h.covered t hp hq
    rw [List.take_succ_cons, List.map_cons]
    exact ⟨fr, List.mem_cons_of_mem _ hfr, hcov⟩
  next := by
    intro e he
    rw [List.getElem?_cons_succ] at he
    exact h.next e he

/-- Before the first frame the two are in step. -/
theorem Fed.inStep_zero (applies : Frame → Bool) {p : Nat} {emitted : List (Frame × Nat)}
    (h : Fed listings buckets (p + 1) emitted) : InStep applies p emitted 0 p where
  cursor := rfl
  forward := Nat.le_refl p
  covered := fun t hlt hle => absurd hlt (Nat.not_lt.mpr hle)
  next := by
    intro e he
    cases emitted with
    | nil => cases he
    | cons x rest =>
        cases he
        exact h.branches applies

/-- As long as the follower stays with the stream the two are in step. -/
theorem Fed.inStep (applies : Frame → Bool) {emitted : List (Frame × Nat)} {p k q : Nat}
    (h : Fed listings buckets (p + 1) emitted)
    (hq : followFrames applies p ((emitted.take k).map Prod.fst) = some q) :
    InStep applies p emitted k q := by
  -- along the frames; the follower's position changes with every applied one
  induction k generalizing p emitted with
  | zero =>
      cases hq
      exact h.inStep_zero applies
  | succ k ih =>
      cases h with
      | done =>
          have hpq : p = q := Option.some.inj hq
          rw [← hpq]
          have hdone : Fed listings buckets (p + 1) [] := .done _
          have hzero := hdone.inStep_zero applies
          exact ⟨hzero.cursor, hzero.forward, hzero.covered, fun e he => by cases he⟩
      | preamble h => exact (ih h hq).skip
      | @ltx _ level minTxid maxTxid body rest hmin hmax hlt h =>
          have hcont := isContiguous_of_cursor hmin hmax hlt
          rw [List.take_succ_cons, List.map_cons, followFrames, followBranch,
            if_neg (by omega : ¬ maxTxid ≤ p), hcont] at hq
          cases happly : applies (.ltx level minTxid maxTxid body) with
          | false =>
              rw [happly] at hq
              cases hq
          | true =>
              rw [happly] at hq
              have hstep : InStep applies maxTxid rest k q := ih h hq
              refine ⟨?_, by have := hstep.forward; omega, fun t hp ht => ?_, fun e he => ?_⟩
              · rw [List.take_succ_cons, cursorAfter_cons]
                exact hstep.cursor
              · rw [List.take_succ_cons, List.map_cons]
                by_cases hle : t ≤ maxTxid
                · exact ⟨_, List.mem_cons_self .., show minTxid ≤ t ∧ t ≤ maxTxid by omega⟩
                · obtain ⟨fr, hfr, hcov⟩ := hstep.covered t (by omega) ht
                  exact ⟨fr, List.mem_cons_of_mem _ hfr, hcov⟩
              · rw [List.getElem?_cons_succ] at he
                exact hstep.next e he
      | @ping _ m rest hm h =>
          have hping : Fed listings buckets (p + 1) ((.ping m, p + 1) :: rest) := .ping hm h
          have hbranch := hping.branches applies
          rw [List.take_succ_cons, List.map_cons, followFrames] at hq
          cases hcase : followBranch (applies (.ping m)) p (.ping m) with
          | idle =>
              rw [hcase] at hq
              exact (ih h hq).skip
          | behind => exact absurd hcase hbranch.not_behind
          | stale => exact absurd hcase hbranch.not_stale
          | gapped => exact absurd hcase hbranch.not_gapped
          | applied position => rw [followBranch] at hcase; split at hcase <;> cases hcase
          | applyFailed => rw [followBranch] at hcase; split at hcase <;> cases hcase
          | ended => rw [followBranch] at hcase; split at hcase <;> cases hcase
      | gap hfiles h => cases hq
      | reset hb h => cases hq

/-- The frames go strictly forward. -/
theorem Fed.increasing {cursor : Nat} {emitted : List (Frame × Nat)}
    (h : Fed listings buckets cursor emitted) :
    (∀ m ∈ (emitted.map Prod.fst).filterMap Frame.maxTxid?, cursor ≤ m) ∧
      ((emitted.map Prod.fst).filterMap Frame.maxTxid?).Pairwise (· < ·) := by
  induction h with
  | done => exact ⟨fun m hm => (by cases hm), .nil⟩
  | preamble _ ih => exact ih
  | @ltx cursor level minTxid maxTxid body rest hmin hmax hlt h ih =>
      rw [List.map_cons, List.filterMap_cons_some (show Frame.maxTxid? _ = some maxTxid from rfl)]
      refine ⟨fun m hm => ?_, List.pairwise_cons.mpr ⟨fun m hm => ih.1 m hm, ih.2⟩⟩
      rcases List.mem_cons.mp hm with rfl | hm
      · exact hmax
      · have := ih.1 m hm
        omega
  | ping _ _ ih => exact ih
  | gap => exact ⟨fun m hm => (by cases hm), .nil⟩
  | reset => exact ⟨fun m hm => (by cases hm), .nil⟩

/-- A gap is reported where level 0 has one, and a reset where some bucket-wide listing was
behind. -/
theorem Fed.reports {cursor : Nat} {emitted : List (Frame × Nat)}
    (h : Fed listings buckets cursor emitted) (k : Nat) :
    (∀ next c, emitted[k]? = some (.gap next, c) →
        ∃ files ∈ listings, Missing files (cursorAfter cursor (emitted.take k)) next) ∧
      ∀ m c, emitted[k]? = some (.reset m, c) →
        ∃ b ∈ buckets, bucketMax b = m ∧
          isReset m (cursorAfter cursor (emitted.take k)) = true := by
  -- a frame in front moves both the place and the cursor on
  have hcons : ∀ {c : Nat} {e : Frame × Nat} {rest : List (Frame × Nat)} {k : Nat},
      cursorAfter c ((e :: rest).take (k + 1)) = cursorAfter e.2 (rest.take k) := by
    intro c e rest k
    rw [List.take_succ_cons, cursorAfter_cons]
  induction h generalizing k with
  | done => exact ⟨fun _ _ h => (by cases h), fun _ _ h => (by cases h)⟩
  | preamble _ ih =>
      cases k with
      | zero => exact ⟨fun _ _ h => (by cases h), fun _ _ h => (by cases h)⟩
      | succ k => rw [hcons]; exact ih k
  | ltx _ _ _ _ ih =>
      cases k with
      | zero => exact ⟨fun _ _ h => (by cases h), fun _ _ h => (by cases h)⟩
      | succ k => rw [hcons]; exact ih k
  | ping _ _ ih =>
      cases k with
      | zero => exact ⟨fun _ _ h => (by cases h), fun _ _ h => (by cases h)⟩
      | succ k => rw [hcons]; exact ih k
  | @gap cursor next files hfiles hmissing =>
      cases k with
      | zero =>
          refine ⟨fun _ _ h => ?_, fun _ _ h => (by cases h)⟩
          cases h
          exact ⟨files, hfiles, hmissing⟩
      | succ k => exact ⟨fun _ _ h => (by cases h), fun _ _ h => (by cases h)⟩
  | @reset cursor b hb hreset =>
      cases k with
      | zero =>
          refine ⟨fun _ _ h => (by cases h), fun _ _ h => ?_⟩
          cases h
          exact ⟨b, hb, rfl, hreset⟩
      | succ k => exact ⟨fun _ _ h => (by cases h), fun _ _ h => (by cases h)⟩

/-- What producer and follower promise each other over a stream from `p`. -/
structure StreamAgrees (applies : Frame → Bool) (p : Nat) (first : Option Bucket)
    (rounds : List StreamRound) : Prop where
  /-- At every frame boundary the two are in step. -/
  inStep : ∀ k q,
    followFrames applies p (((writeTo (p + 1) first rounds).1.take k).map Prod.fst) = some q →
    InStep applies p (writeTo (p + 1) first rounds).1 k q
  /-- The frames go strictly forward from `p`. -/
  increasing :
    (∀ m ∈ ((writeTo (p + 1) first rounds).1.map Prod.fst).filterMap Frame.maxTxid?, p < m) ∧
    (((writeTo (p + 1) first rounds).1.map Prod.fst).filterMap Frame.maxTxid?).Pairwise (· < ·)
  /-- A gap is reported only where a listed level 0 has one at the cursor. -/
  gaps : ∀ k next c, (writeTo (p + 1) first rounds).1[k]? = some (.gap next, c) →
    ∃ r ∈ rounds, ∃ files, r.listed = some files ∧
      Missing files (cursorAfter (p + 1) ((writeTo (p + 1) first rounds).1.take k)) next
  /-- A reset is reported only where a bucket-wide listing ended before the position. -/
  resets : ∀ k m c, (writeTo (p + 1) first rounds).1[k]? = some (.reset m, c) →
    ∃ b, (first = some b ∨ ∃ r ∈ rounds, r.checked = some b ∨ r.pinged = some b) ∧
      0 < bucketMax b ∧
      bucketMax b + 1 < cursorAfter (p + 1) ((writeTo (p + 1) first rounds).1.take k)

/-- Whatever the bucket is at every listing and every open, producer and follower agree. -/
theorem streamAgrees (applies : Frame → Bool) (p : Nat) (first : Option Bucket)
    {rounds : List StreamRound}
    (hlisted : ∀ r ∈ rounds, ∀ files, r.listed = some files → WellListed files) :
    StreamAgrees applies p first rounds := by
  have hfed : Fed (listingsOf rounds) (first.toList ++ bucketsOf rounds) (p + 1)
      (writeTo (p + 1) first rounds).1 := by
    refine writeTo_fed (fun files hfiles => ?_) (p + 1) first
    obtain ⟨r, hr, hrf⟩ := List.mem_filterMap.mp hfiles
    exact hlisted r hr files hrf
  refine ⟨fun k q hq => hfed.inStep applies hq, hfed.increasing, fun k next c hk => ?_,
    fun k m c hk => ?_⟩
  · obtain ⟨files, hfiles, hmissing⟩ := (hfed.reports k).1 next c hk
    obtain ⟨r, hr, hrf⟩ := List.mem_filterMap.mp hfiles
    exact ⟨r, hr, files, hrf, hmissing⟩
  · obtain ⟨b, hb, rfl, hreset⟩ := (hfed.reports k).2 m c hk
    refine ⟨b, ?_, ?_⟩
    · rcases List.mem_append.mp hb with hb | hb
      · exact .inl (by simpa using hb)
      · obtain ⟨r, hr, hb⟩ := List.mem_flatMap.mp hb
        exact .inr ⟨r, hr, by simpa using hb⟩
    · simp only [isReset, ne_eq, decide_not, Bool.and_eq_true, Bool.not_eq_true',
        decide_eq_false_iff_not, decide_eq_true_eq] at hreset
      omega

/-- A level-0 file of some transactions, as a listing shows it. -/
def listedFile (minTxid maxTxid : Nat) : Stored := ⟨minTxid, maxTxid, none, [7]⟩

/-- A round in which level 0 lists some files and each opens. -/
def quietRound (files : List Stored) : StreamRound where
  cancelled := false
  listed := some files
  opened := fun _ => .content [7]
  checked := none
  pingDue := false
  pinged := none

/-- A follower at 3 is fed an overlapping file, then one that follows it, and then hears of a
gap. -/
theorem streamAgrees_gap :
    StreamAgrees (fun _ => true) 3 none [quietRound [listedFile 2 4],
      quietRound [listedFile 2 4, listedFile 5 5, listedFile 8 8]] ∧
    (writeTo 4 none [quietRound [listedFile 2 4],
      quietRound [listedFile 2 4, listedFile 5 5, listedFile 8 8]]).1
        = [(.preamble, 4), (.ltx 0 2 4 [7], 5), (.ltx 0 5 5 [7], 6), (.gap 8, 6)] := by
  refine ⟨streamAgrees _ 3 none fun r hr files hfiles => ?_, by decide⟩
  -- every listing of the two rounds is sorted and small
  have hsorted : ∀ files ∈ [[listedFile 2 4], [listedFile 2 4, listedFile 5 5, listedFile 8 8]],
      files.Pairwise Stored.Before ∧ ∀ f ∈ files, f.maxTxid + 1 < 2 ^ 64 := by decide
  rcases List.mem_pair.mp hr with rfl | rfl
  · cases hfiles
    exact ⟨(hsorted _ (by simp)).1, (hsorted _ (by simp)).2⟩
  · cases hfiles
    exact ⟨(hsorted _ (by simp)).1, (hsorted _ (by simp)).2⟩

end Liters
