import Liters.Wal.Resume

/-! # The database behind a WAL

A database file and a WAL over it stand for a committed database at every commit of the WAL: the
pages of the frames up to there over the pages the database had when the WAL was started. A part of
the WAL that is applied to the database at a commit leads to the database at a later one. -/

namespace Liters

namespace LogEntry

/-- A log over a database of some size: from there to the first commit, and from each commit to the
next one, every key by which the size grows occurs but `skip`. -/
structure GrowsFrom (skip size : Nat) (log : List LogEntry) : Prop where
  first : ∀ front y rest, log = front ++ y :: rest → (∀ e ∈ front, e.commit = 0) → y.commit ≠ 0 →
    ∀ k, size < k → k ≤ y.commit → k ≠ skip → k ∈ (front ++ [y]).map key
  later : Grows skip log

/-- A log that commits something, at its first commit. -/
theorem exists_first_commit {log : List LogEntry} (h : committed log ≠ []) :
    ∃ front y rest, log = front ++ y :: rest ∧ (∀ e ∈ front, e.commit = 0) ∧ y.commit ≠ 0 := by
  induction log with
  | nil => exact absurd rfl h
  | cons e log ih =>
      by_cases he : e.commit = 0
      · have hlog : committed log ≠ [] := by
          rw [Ne, committed_eq_nil_iff] at h ⊢
          exact fun hall => h (List.forall_mem_cons.mpr ⟨he, hall⟩)
        obtain ⟨front, y, rest, rfl, hfront, hy⟩ := ih hlog
        exact ⟨e :: front, y, rest, rfl, List.forall_mem_cons.mpr ⟨he, hfront⟩, hy⟩
      · exact ⟨[], e, log, rfl, by simp, he⟩

/-- Every key by which the size has grown at the last commit occurs but `skip`. -/
theorem GrowsFrom.mem {skip size : Nat} {log : List LogEntry} {last : LogEntry}
    (h : GrowsFrom skip size log) (hlast : (committed log).getLast? = some last) {k : Nat}
    (hlow : size < k) (hhigh : k ≤ last.commit)
    (hk : k ≠ skip) : k ∈ (committed log).map key := by
  have hne : committed log ≠ [] := by
    intro hnil
    rw [hnil] at hlast
    cases hlast
  obtain ⟨front, y, rest, hlog, hfront, hy⟩ := exists_first_commit hne
  have hcom : committed log = front ++ [y] ++ committed rest := by
    rw [hlog, ← List.singleton_append, ← List.append_assoc]
    exact committed_append (committed_concat_of_commit hy)
  rw [hcom, List.map_append, List.mem_append]
  by_cases hky : k ≤ y.commit
  · exact .inl (h.first front y rest hlog hfront hy k hlow hky hk)
  · cases hr : (committed rest).getLast? with
    | none =>
        rw [hcom, List.getLast?_eq_none_iff.mp hr, List.append_nil, List.getLast?_concat,
          Option.some_inj] at hlast
        rw [hlast] at hky
        exact absurd hhigh hky
    | some last' =>
        rw [hcom, List.getLast?_append, hr, Option.some_or, Option.some_inj] at hlast
        rw [← hlast] at hhigh
        exact .inr (h.later.mem hlog hy hr (Nat.not_le.mp hky) hhigh hk)

end LogEntry

namespace WalReader

open LogEntry

variable {rd : WalReader} {wal : Bytes} {base : Image Bytes}

/-- A page of zeros. -/
def zeroPage (pageSize : Nat) : Bytes := List.replicate pageSize 0

/-- The pages of a page map over a database; nothing is committed by an empty one. -/
def overlay (rd : WalReader) (base : Image Bytes) (pm : PageMap) : Image Bytes :=
  if pm.pages.entries = [] then base
  else base.apply (zeroPage rd.pageSize) (l0Patch rd.r rd.pageSize pm)

/-- An empty page map leaves the database as it is. -/
@[simp] theorem overlay_empty (rd : WalReader) (base : Image Bytes) : rd.overlay base {} = base :=
  if_pos rfl

/-- The committed database of a WAL up to an offset, over the database at its start. -/
def stateAt (rd : WalReader) (base : Image Bytes) (endOffset : Nat) : Image Bytes :=
  rd.overlay base (rd.pageMapUntil endOffset).1

/-- The committed database of a page map that is not empty. -/
theorem stateAt_of_pageMap {endOffset : Nat} {pm : PageMap}
    (hpm : (rd.pageMapUntil endOffset).1 = pm) (hne : pm.pages.entries ≠ []) :
    rd.stateAt base endOffset =
      base.apply (zeroPage rd.pageSize) (l0Patch rd.r rd.pageSize pm) := by
  rw [stateAt, hpm, overlay, if_neg hne]

/-- A page that a frame carries. -/
theorem stateAt_page {endOffset p offset : Nat} {pm : PageMap}
    (hpm : (rd.pageMapUntil endOffset).1 = pm) (hfind : pm.pages.find? p = some offset) :
    (rd.stateAt base endOffset).page p = readAt rd.r (offset + walFrameHeaderSize) rd.pageSize := by
  have hne : pm.pages.entries ≠ [] := List.ne_nil_of_mem (SortedMap.mem_entries_iff.mpr hfind)
  rw [stateAt_of_pageMap hpm hne]
  show (((pm.pages.find? p).map fun offset =>
    readAt rd.r (offset + walFrameHeaderSize) rd.pageSize).getD _) = _
  rw [hfind]
  rfl

/-- The size that a page map gives. -/
theorem stateAt_size {endOffset : Nat} {pm : PageMap} (hpm : (rd.pageMapUntil endOffset).1 = pm)
    (hne : pm.pages.entries ≠ []) : (rd.stateAt base endOffset).size = pm.commit := by
  rw [stateAt_of_pageMap hpm hne]
  rfl

/-! ## The end of the last commit -/

/-- The end of the committed part of a WAL. -/
def committedEnd (rd : WalReader) : Nat := rd.slotStart (committed (rd.frames maxOffset)).length

/-- The committed frames are the first ones of the chain. -/
theorem committed_frames (endOffset : Nat) :
    committed (rd.frames endOffset) = rd.entries 0 (committed (rd.frames endOffset)).length ∧
      (committed (rd.frames endOffset)).length ≤ rd.chainLength endOffset := by
  have hfront := committed_isPrefixOf (rd.frames endOffset)
  have hlen : (rd.frames endOffset).length = rd.chainLength endOffset := by
    rw [frames, entries, List.length_map, List.length_range']
  have hle := hfront.length_le
  rw [hlen] at hle
  refine ⟨?_, hle⟩
  obtain ⟨d, hd⟩ := Nat.exists_eq_add_of_le hle
  rw [List.prefix_iff_eq_take] at hfront
  have htake : rd.frames endOffset = rd.entries 0 (committed (rd.frames endOffset)).length
      ++ rd.entries (0 + (committed (rd.frames endOffset)).length) d := by
    rw [← entries_append, ← hd]
    rfl
  have hlen' : (rd.entries 0 (committed (rd.frames endOffset)).length).length
      = (committed (rd.frames endOffset)).length := by
    rw [entries, List.length_map, List.length_range']
  generalize (committed (rd.frames endOffset)).length = n at hfront htake hlen'
  rw [hfront, htake, List.take_append_of_le_length hlen'.ge, List.take_of_length_le hlen'.le]

/-- Nothing starts before the first slot. -/
theorem chainLength_walHeaderSize : rd.chainLength walHeaderSize = 0 := by
  refine chainLength_eq (fun i hi => absurd hi (Nat.not_lt_zero _)) fun h => ?_
  have hlt := h.2
  rw [slotStart, Nat.zero_mul] at hlt
  exact absurd hlt (Nat.lt_irrefl _)

/-- The first slot is behind the WAL header. -/
theorem slotStart_zero : rd.slotStart 0 = walHeaderSize := by
  rw [slotStart, Nat.zero_mul, Nat.add_zero]

/-- Up to the end of the last commit the WAL has the frames of its committed part. -/
theorem frames_committedEnd : rd.frames rd.committedEnd = committed (rd.frames maxOffset) := by
  obtain ⟨hcom, hle⟩ := @committed_frames rd maxOffset
  unfold committedEnd
  generalize (committed (rd.frames maxOffset)).length = n at hcom hle
  rw [hcom]
  rcases n with _ | i
  · rw [slotStart_zero, frames, chainLength_walHeaderSize]
  · rw [frames, chainLength_slotStart (Nat.lt_of_succ_le hle)]

/-- Cutting a log to its committed part twice changes nothing. -/
theorem committed_committed (log : List LogEntry) : committed (committed log) = committed log := by
  cases h : (committed log).getLast? with
  | none =>
      rw [List.getLast?_eq_none_iff.mp h]
      rfl
  | some last => exact committed_of_getLast? h (commit_of_getLast? h)

/-- The page map up to the end of the last commit is the one of the whole. -/
theorem pageMapUntil_committedEnd (hnew : new wal = .ok rd)
    (hpgno : ∀ e ∈ rd.frames maxOffset, e.commit ≠ 0 → e.key ≤ e.commit) :
    (rd.pageMapUntil rd.committedEnd).1 = rd.pageMap.1 := by
  refine pageMapUntil_congr hnew hpgno hnew rfl ?_
  rw [frames_committedEnd, committed_committed]

/-- The page map from the top, and where it ends. -/
theorem pageMap_end (hnew : new wal = .ok rd)
    (hpgno : ∀ e ∈ rd.frames maxOffset, e.commit ≠ 0 → e.key ≤ e.commit) :
    (committed (rd.frames maxOffset) = [] ∧ rd.pageMap.1 = {} ∧ rd.committedEnd = walHeaderSize) ∨
      ∃ last, (committed (rd.frames maxOffset)).getLast? = some last ∧
        rd.pageMap.1.pages.entries ≠ [] ∧
        rd.pageMap.1.commit = last.commit ∧ last.commit ≠ 0 ∧
        rd.pageMap.1.maxOffset = rd.committedEnd ∧
        walHeaderSize < rd.committedEnd := by
  have hpm := isPageMap_of_new hnew maxOffset hpgno
  obtain ⟨hcom, -⟩ := @committed_frames rd maxOffset
  cases hlast : (committed (rd.frames maxOffset)).getLast? with
  -- no commit: the map is empty
  | none =>
      have hnil := List.getLast?_eq_none_iff.mp hlast
      refine .inl ⟨hnil, hpm.none hnil, ?_⟩
      rw [committedEnd, hnil, List.length_nil, slotStart_zero]
  -- the map ends where the last committed frame does
  | some last =>
      refine .inr ⟨last, rfl, hpm.entries_ne_nil hpgno hlast, hpm.commit hlast,
        commit_of_getLast? hlast, ?_⟩
      have hmax : rd.pageMap.1.maxOffset = last.value + rd.frameSize := hpm.maxOffset hlast
      rw [hmax, committedEnd, ← @slotStart_zero rd]
      generalize (committed (rd.frames maxOffset)).length = n at hcom
      rw [hcom] at hlast
      rcases n with _ | i
      · cases hlast
      · have hlastEntry : last = rd.entryAt i := by
          rw [entries, List.range'_concat, List.map_append, List.map_singleton,
            List.getLast?_concat, Option.some_inj] at hlast
          rw [← hlast, Nat.zero_add, Nat.one_mul]
        refine ⟨?_, slotStart_strictMono (Nat.succ_pos i)⟩
        rw [hlastEntry, slotStart_succ]
        rfl

/-! ## From one commit to a later one -/

/-- The first part of the frames, up to the end of a commit frame. -/
theorem frames_slotStart {i : Nat} (hi : i < rd.chainLength maxOffset) :
    rd.frames (rd.slotStart (i + 1)) = rd.entries 0 i ++ [rd.entryAt i] := by
  rw [frames, chainLength_slotStart hi, entries_append, Nat.zero_add]
  rfl

/-- The page map up to the end of a commit frame commits its size. -/
theorem pageMapUntil_slotStart (hnew : new wal = .ok rd)
    (hpgno : ∀ e ∈ rd.frames maxOffset, e.commit ≠ 0 → e.key ≤ e.commit) {i : Nat}
    (hi : i < rd.chainLength maxOffset) (hcommit : (rd.entryAt i).commit ≠ 0) :
    (rd.pageMapUntil (rd.slotStart (i + 1))).1.pages.entries ≠ [] ∧
      (rd.pageMapUntil (rd.slotStart (i + 1))).1.commit = (rd.entryAt i).commit ∧
      (rd.pageMapUntil (rd.slotStart (i + 1))).1.maxOffset = rd.slotStart (i + 1) := by
  have hfirst := frames_slotStart hi
  have hpgno' : ∀ e ∈ rd.frames (rd.slotStart (i + 1)), e.commit ≠ 0 → e.key ≤ e.commit := by
    intro e he
    refine hpgno e ?_
    rw [frames_split hi, ← hfirst]
    exact List.mem_append_left _ he
  have hlast : (committed (rd.frames (rd.slotStart (i + 1)))).getLast? = some (rd.entryAt i) := by
    rw [hfirst, committed_concat_of_commit hcommit, List.getLast?_concat]
  have hpm := isPageMap_of_new hnew (rd.slotStart (i + 1)) hpgno'
  refine ⟨hpm.entries_ne_nil hpgno' hlast, hpm.commit hlast, ?_⟩
  rw [hpm.maxOffset hlast, slotStart_succ]
  rfl

/-- A field of four bytes is below 2^32. -/
theorem beField_lt (b : Bytes) (pos : Nat) : beField b pos < 2 ^ 32 := by
  have hlt := beNat_lt (readAt b pos 4)
  have hle : (readAt b pos 4).length ≤ 4 := by
    rw [readAt_length]
    exact Nat.min_le_left _ _
  calc beField b pos < 256 ^ (readAt b pos 4).length := hlt
    _ ≤ 256 ^ 4 := Nat.pow_le_pow_right (by decide) hle
    _ = 2 ^ 32 := by decide

/-- The size that a scan finds has 32 bits. -/
theorem pageMapUntil_commit_lt {endOffset i : Nat} (hi : i ≤ rd.chainLength endOffset)
    (hpgno : ∀ e ∈ rd.entries i (rd.chainLength endOffset - i), e.commit ≠ 0 → e.key ≤ e.commit) :
    ((rd.atSlot i).pageMapUntil endOffset).1.commit < 2 ^ 32 := by
  have hpm := pageMapUntil_atSlot hi hpgno
  cases hlast : (committed (rd.entries i (rd.chainLength endOffset - i))).getLast? with
  | none =>
      rw [hpm.none (List.getLast?_eq_none_iff.mp hlast)]
      exact Nat.two_pow_pos 32
  | some last =>
      obtain ⟨j, -, rfl⟩ := List.mem_map.mp
        ((committed_isPrefixOf _).subset (List.mem_of_getLast? hlast))
      rw [hpm.commit hlast]
      exact beField_lt _ _

/-- **The part behind a commit, over the database at that commit**, is the database at the end; and
the part ends where the WAL ends. -/
theorem overlay_resume {skip : Nat} (hnew : new wal = .ok rd)
    (hgrow : GrowsFrom skip base.size (rd.frames maxOffset))
    (hpgno : ∀ e ∈ rd.frames maxOffset, e.commit ≠ 0 → e.key ≤ e.commit) {i : Nat}
    (hi : i < rd.chainLength maxOffset) (hcommit : (rd.entryAt i).commit ≠ 0) :
    Image.AgreeOff skip
        (rd.overlay (rd.stateAt base (rd.slotStart (i + 1))) (rd.atSlot (i + 1)).pageMap.1)
        (rd.stateAt base maxOffset) ∧
      ((rd.atSlot (i + 1)).pageMap.1 = {} ∧ rd.committedEnd = rd.slotStart (i + 1) ∨
        (rd.atSlot (i + 1)).pageMap.1.pages.entries ≠ [] ∧
        0 < (rd.atSlot (i + 1)).pageMap.1.commit ∧
          (rd.atSlot (i + 1)).pageMap.1.maxOffset = rd.committedEnd ∧
          rd.slotStart (i + 1) < rd.committedEnd) := by
  obtain ⟨hne₁, hc₁, hm₁⟩ := pageMapUntil_slotStart hnew hpgno hi hcommit
  obtain ⟨hc, hm, hp⟩ := andThen_atSlot hnew hgrow.later hpgno hi hcommit
  have hsplit := frames_split hi
  have hpgno₂ : ∀ e ∈ rd.entries (i + 1) (rd.chainLength maxOffset - (i + 1)), e.commit ≠ 0 →
      e.key ≤ e.commit := by
    intro e he
    refine hpgno e ?_
    rw [hsplit]
    exact List.mem_append_right _ he
  have h₂ := pageMapUntil_atSlot (Nat.succ_le_of_lt hi) hpgno₂
  have hcov := h₂.covers hcommit (hsplit ▸ hgrow.later) rd.r rd.pageSize
  -- something is committed in the whole, so its map is not empty
  have hend : rd.pageMap.1.pages.entries ≠ [] ∧ rd.pageMap.1.maxOffset = rd.committedEnd := by
    have hmem : rd.entryAt i ∈ rd.frames maxOffset := by
      rw [hsplit]
      simp
    rcases pageMap_end hnew hpgno with ⟨hnil, -⟩ | ⟨last, -, hne, -, -, hmax, -⟩
    · have := mem_committed hmem hcommit
      rw [hnil] at this
      cases this
    · exact ⟨hne, hmax⟩
  have hstate : rd.stateAt base maxOffset
      = base.apply (zeroPage rd.pageSize) (l0Patch rd.r rd.pageSize rd.pageMap.1) := if_neg hend.1
  have hstate₁ : rd.stateAt base (rd.slotStart (i + 1)) = base.apply (zeroPage rd.pageSize)
      (l0Patch rd.r rd.pageSize (rd.pageMapUntil (rd.slotStart (i + 1))).1) := if_neg hne₁
  rw [hstate, hstate₁]
  have hpm₂ : (rd.atSlot (i + 1)).pageMap.1 = ((rd.atSlot (i + 1)).pageMapUntil maxOffset).1 := rfl
  have hwhole : rd.pageMap.1 = (rd.pageMapUntil maxOffset).1 := rfl
  rw [hpm₂]
  rw [hwhole] at hend ⊢
  generalize (rd.pageMapUntil (rd.slotStart (i + 1))).1 = pm₁ at hc hm hp hc₁ hm₁
  generalize ((rd.atSlot (i + 1)).pageMapUntil maxOffset).1 = pm₂ at hc hm hp h₂ hcov
  generalize (rd.pageMapUntil maxOffset).1 = whole at hc hm hp hend
  by_cases hempty : pm₂.pages.entries = []
  · -- nothing is committed behind
    rw [overlay, if_pos hempty]
    rw [PageMap.andThen, if_pos hempty] at hc hm hp
    refine ⟨Image.apply_congr base hc fun p _ _ hskip => ?_, .inl ⟨h₂.eq_default hpgno₂ hempty, ?_⟩⟩
    · simp only [l0Patch, hp p (.inl hskip)]
    · rw [← hend.2, ← hm, hm₁]
  · rw [overlay, if_neg hempty]
    rw [PageMap.andThen, if_neg hempty] at hc hm hp
    -- the last commit of the part lies in it
    have hlast : ∃ last, (committed
        (rd.entries (i + 1) (rd.chainLength maxOffset - (i + 1)))).getLast?
        = some last := by
      cases hl : (committed (rd.entries (i + 1) (rd.chainLength maxOffset - (i + 1)))).getLast? with
      | none =>
          have hnil := h₂.none (List.getLast?_eq_none_iff.mp hl)
          exact absurd (congrArg (fun pm => pm.pages.entries) hnil) hempty
      | some last => exact ⟨last, rfl⟩
    obtain ⟨last, hlast⟩ := hlast
    refine ⟨?_, .inr ⟨hempty, ?_, hm.trans hend.2, ?_⟩⟩
    · have hcov' : (l0Patch rd.r rd.pageSize pm₂).Covers skip
        (l0Patch rd.r rd.pageSize pm₁).commit := by
        show (l0Patch rd.r rd.pageSize pm₂).Covers skip pm₁.commit
        rw [hc₁]
        exact hcov
      refine (Image.apply_merge base hcov').symm.trans
        (Image.apply_congr base hc fun p _ hle hskip => ?_)
      have hle' : p ≤ pm₂.commit := hle
      have hfind := hp p (.inl hskip)
      change ((pm₁.pages.insertAll pm₂.pages).filterKeys _).find? p = _ at hfind
      rw [SortedMap.find?_filterKeys, SortedMap.find?_insertAll, if_pos (decide_eq_true hle')]
        at hfind
      simp only [Patch.merge, l0Patch, ← hfind, Option.map_or]
      exact if_pos hle'
    · rw [h₂.commit hlast]
      exact Nat.pos_of_ne_zero (commit_of_getLast? hlast)
    · have hmax : pm₂.maxOffset = last.value + rd.frameSize := h₂.maxOffset hlast
      have hle : rd.slotStart (i + 1) ≤ last.value := by
        obtain ⟨j, hj, rfl⟩ := List.mem_map.mp
          ((committed_isPrefixOf _).subset (List.mem_of_getLast? hlast))
        exact slotStart_strictMono.monotone (List.mem_range'_1.mp hj).1
      rw [← hend.2, ← hm, show ({ pages := _, maxOffset := pm₂.maxOffset, commit := _ } :
        PageMap).maxOffset
        = pm₂.maxOffset from rfl, hmax]
      exact Nat.lt_of_le_of_lt hle (Nat.lt_add_of_pos_right frameSize_pos)

end WalReader

end Liters
