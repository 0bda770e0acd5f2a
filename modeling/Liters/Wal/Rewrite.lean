import Liters.Wal.State

/-! # WALs that are written on

An application commits behind the committed part of a WAL, or restarts it and writes over its slots
from the first one on. What the reader finds of the bytes that stay is the same before and after. -/

namespace Liters

/-- A read behind some bytes depends on what follows them only. -/
theorem readAt_congr_drop {a b : Bytes} {k offset : Nat} (h : a.drop k = b.drop k)
    (hle : k ≤ offset) (n : Nat) :
    readAt a offset n = readAt b offset n := by
  obtain ⟨d, rfl⟩ := Nat.exists_eq_add_of_le hle
  rw [readAt, readAt, ← List.drop_drop, h, List.drop_drop]

/-- What is the same up to a place is the same up to an earlier one. -/
theorem take_congr_of_le {a b : Bytes} {k n : Nat} (h : a.take n = b.take n) (hle : k ≤ n) :
    a.take k = b.take k := by
  have := congrArg (List.take k) h
  rwa [List.take_take, List.take_take, Nat.min_eq_left hle] at this

namespace WalReader

open LogEntry

variable {rd rd' : WalReader} {wal wal' : Bytes} {base : Image Bytes}

/-- Slots depend on the page size only. -/
theorem slotStart_congr (hps : rd'.pageSize = rd.pageSize) (i : Nat) :
    rd'.slotStart i = rd.slotStart i := by
  rw [slotStart, slotStart, frameSize, frameSize, hps]

/-- Frames that stay are the same. -/
theorem entries_congr (hps : rd'.pageSize = rd.pageSize) {n : Nat}
    (hkept : rd'.r.take (rd.slotStart n) = rd.r.take (rd.slotStart n)) :
    rd'.entries 0 n = rd.entries 0 n := by
  refine List.map_congr_left fun i hi => ?_
  have hlt : i < n := by
    have := (List.mem_range'_1.mp hi).2
    omega
  have hle : rd.slotStart i + walFrameHeaderSize ≤ rd.slotStart n := by
    have hmono : rd.slotStart (i + 1) ≤ rd.slotStart n := slotStart_strictMono.monotone hlt
    rw [slotStart_succ, frameSize] at hmono
    omega
  have hhdr : rd'.slotHdr i = rd.slotHdr i := by
    rw [slotHdr, slotStart_congr hps, readAt_congr_take hkept hle]
    rfl
  rw [entryAt, entryAt, hhdr, slotStart_congr hps]

/-- The slots of the committed part are linked. -/
theorem linked_of_committedEnd {i : Nat} (h : rd.slotStart i < rd.committedEnd) : rd.Linked i := by
  have hlt : i < (committed (rd.frames maxOffset)).length := slotStart_strictMono.lt_iff_lt.mp h
  exact (chain_chainLength maxOffset i (Nat.lt_of_lt_of_le hlt (committed_frames maxOffset).2)).1

/-- The committed part lies in the file. -/
theorem committedEnd_le_length (h : walHeaderSize < rd.committedEnd) :
    rd.committedEnd ≤ rd.r.length := by
  unfold committedEnd at h ⊢
  generalize hn : (committed (rd.frames maxOffset)).length = n at h
  rcases n with _ | i
  · rw [slotStart_zero] at h
    exact absurd h (Nat.lt_irrefl _)
  · have hlinked : rd.Linked i := by
      refine linked_of_committedEnd ?_
      rw [committedEnd, hn]
      exact slotStart_strictMono (Nat.lt_succ_self i)
    exact hlinked.complete

/-- A frame of the committed part carries the salts of the header. -/
theorem Linked.salts {i : Nat} (h : rd.Linked i) :
    (beField (rd.slotHdr i) 8, beField (rd.slotHdr i) 12) = (rd.salt1, rd.salt2) := by
  rw [h.salt1, h.salt2]

/-- **A WAL that is written on** has the committed frames it had, and further ones. -/
theorem committed_frames_grown (hps : rd'.pageSize = rd.pageSize)
    (hkept : rd'.r.take rd.committedEnd = rd.r.take rd.committedEnd)
    (hgrown : rd.committedEnd ≤ rd'.committedEnd) :
    ∃ more, committed (rd'.frames maxOffset) = committed (rd.frames maxOffset) ++ more := by
  obtain ⟨hcom, -⟩ := @committed_frames rd maxOffset
  obtain ⟨hcom', -⟩ := @committed_frames rd' maxOffset
  unfold committedEnd at hkept hgrown
  generalize (committed (rd.frames maxOffset)).length = n at hcom hkept hgrown
  generalize (committed (rd'.frames maxOffset)).length = n' at hcom' hgrown
  rw [slotStart_congr hps] at hgrown
  have hle : n ≤ n' := slotStart_strictMono.le_iff_le.mp hgrown
  obtain ⟨d, rfl⟩ := Nat.exists_eq_add_of_le hle
  refine ⟨rd'.entries (0 + n) d, ?_⟩
  rw [hcom', hcom, entries_append, entries_congr hps hkept]

/-- Every page of a page map is in one of the slots it was made of. -/
theorem exists_slot_of_find? {log : List LogEntry} {pm : PageMap} {n pgno offset : Nat}
    (hpm : IsPageMap rd.frameSize log pm) (hlog : log = rd.entries 0 n)
    (h : pm.pages.find? pgno = some offset) :
    ∃ j < n, offset = rd.slotStart j := by
  cases hlast : (committed log).getLast? with
  | none =>
      rw [hpm.none (List.getLast?_eq_none_iff.mp hlast)] at h
      cases h
  | some last =>
      rw [hpm.pages hlast] at h
      split at h
      · obtain ⟨e, he, -, rfl⟩ := exists_of_latest h
        have hmem := (committed_isPrefixOf log).subset he
        rw [hlog] at hmem
        obtain ⟨j, hj, rfl⟩ := List.mem_map.mp hmem
        have hlt := (List.mem_range'_1.mp hj).2
        exact ⟨j, by omega, rfl⟩
      · cases h

/-- The committed database up to a commit that stays is the same. -/
theorem stateAt_congr (hnew : new wal = .ok rd) (hnew' : new wal' = .ok rd')
    (hps : rd'.pageSize = rd.pageSize)
    (hpgno : ∀ e ∈ rd.frames maxOffset, e.commit ≠ 0 → e.key ≤ e.commit) {i : Nat}
    (hi : i < rd.chainLength maxOffset) (hi' : i < rd'.chainLength maxOffset)
    (hkept : rd'.r.take (rd.slotStart (i + 1)) = rd.r.take (rd.slotStart (i + 1))) :
    rd'.stateAt base (rd.slotStart (i + 1)) = rd.stateAt base (rd.slotStart (i + 1)) := by
  have hframes : rd.frames (rd.slotStart (i + 1)) = rd.entries 0 (i + 1) := by
    rw [frames, chainLength_slotStart hi]
  have hframes' : rd'.frames (rd.slotStart (i + 1)) = rd.entries 0 (i + 1) := by
    rw [← slotStart_congr hps, frames, chainLength_slotStart hi', entries_congr hps hkept]
  have hpgno' : ∀ e ∈ rd.frames (rd.slotStart (i + 1)), e.commit ≠ 0 → e.key ≤ e.commit := by
    intro e he
    refine hpgno e ?_
    rw [frames_split hi, ← frames_slotStart hi]
    exact List.mem_append_left _ he
  have hpm := pageMapUntil_congr hnew hpgno' hnew' hps (by rw [hframes', hframes])
  have hpage := isPageMap_of_new hnew (rd.slotStart (i + 1)) hpgno'
  rw [stateAt, stateAt, hpm]
  unfold overlay
  split
  · rfl
  · rw [hps]
    -- the frames of the map lie before the end
    have hpatch : l0Patch rd'.r rd.pageSize (rd.pageMapUntil (rd.slotStart (i + 1))).1
        = l0Patch rd.r rd.pageSize (rd.pageMapUntil (rd.slotStart (i + 1))).1 := by
      unfold l0Patch
      congr 1
      funext pgno
      refine Option.map_congr fun offset hoffset => ?_
      obtain ⟨j, hj, rfl⟩ := exists_slot_of_find? hpage hframes hoffset
      refine readAt_congr_take hkept ?_
      have hmono : rd.slotStart (j + 1) ≤ rd.slotStart (i + 1) := slotStart_strictMono.monotone hj
      rw [slotStart_succ, frameSize] at hmono
      omega
    rw [hpatch]

/-- Without a commit the WAL stands for the database at its start. -/
theorem stateAt_of_not_committed (hnew : new wal = .ok rd)
    (hpgno : ∀ e ∈ rd.frames maxOffset, e.commit ≠ 0 → e.key ≤ e.commit)
    (hnil : committed (rd.frames maxOffset) = []) :
    rd.stateAt base maxOffset = base := by
  have hempty : (rd.pageMapUntil maxOffset).1 = {} :=
    (isPageMap_of_new hnew maxOffset hpgno).none hnil
  rw [stateAt, hempty, overlay_empty]

/-- The committed database has the size that is committed last. -/
theorem size_stateAt (hnew : new wal = .ok rd)
    (hpgno : ∀ e ∈ rd.frames maxOffset, e.commit ≠ 0 → e.key ≤ e.commit) {last : LogEntry}
    (hlast : (committed (rd.frames maxOffset)).getLast? = some last) :
    (rd.stateAt base maxOffset).size = last.commit := by
  have hpm := isPageMap_of_new hnew maxOffset hpgno
  rw [stateAt_size rfl (hpm.entries_ne_nil hpgno hlast)]
  exact hpm.commit hlast

/-- A page of the database that a WAL does not carry after more was committed was there before, and
not in the WAL either. -/
theorem find?_eq_none_of_grown {skip : Nat} (hnew : new wal = .ok rd) (hnew' : new wal' = .ok rd')
    (hpgno : ∀ e ∈ rd.frames maxOffset, e.commit ≠ 0 → e.key ≤ e.commit)
    (hpgno' : ∀ e ∈ rd'.frames maxOffset, e.commit ≠ 0 → e.key ≤ e.commit)
    (hgrow : Grows skip (rd'.frames maxOffset)) {more : List LogEntry}
    (hmore : committed (rd'.frames maxOffset) = committed (rd.frames maxOffset) ++ more) {p : Nat}
    (hskip : p ≠ skip) (hbase : p ≤ base.size) (hsize : p ≤ (rd'.stateAt base maxOffset).size)
    (hfind : rd'.pageMap.1.pages.find? p = none) :
    rd.pageMap.1.pages.find? p = none ∧ p ≤ (rd.stateAt base maxOffset).size := by
  have hpm : IsPageMap rd.frameSize (rd.frames maxOffset) rd.pageMap.1 :=
    isPageMap_of_new hnew maxOffset hpgno
  have hpm' : IsPageMap rd'.frameSize (rd'.frames maxOffset) rd'.pageMap.1 :=
    isPageMap_of_new hnew' maxOffset hpgno'
  cases hlast : (committed (rd.frames maxOffset)).getLast? with
  -- nothing was committed in the old log, so its state is the base
  | none =>
      have hnil := List.getLast?_eq_none_iff.mp hlast
      rw [hpm.none hnil, stateAt_of_not_committed hnew hpgno hnil]
      exact ⟨rfl, hbase⟩
  -- the new log begins with the frames of the old one
  | some x =>
      have hlast' : ∃ last, (committed (rd'.frames maxOffset)).getLast? = some last := by
        refine ⟨_, List.getLast?_eq_some_getLast fun hnil => ?_⟩
        rw [hmore, List.append_eq_nil_iff] at hnil
        rw [hnil.1] at hlast
        cases hlast
      obtain ⟨last, hlast'⟩ := hlast'
      rw [size_stateAt hnew' hpgno' hlast'] at hsize
      rw [hpm'.pages hlast', if_pos hsize, latest_eq_none_iff, hmore, List.map_append,
        List.mem_append, not_or] at hfind
      rw [hpm.pages hlast, size_stateAt hnew hpgno hlast]
      refine ⟨?_, ?_⟩
      · split
        · exact latest_eq_none_iff.mpr hfind.1
        · rfl
      · -- between the two sizes every page was written
        by_contra hlt
        obtain ⟨a, ha⟩ := List.getLast?_eq_some_iff.mp hlast
        have hx := commit_of_getLast? hlast
        obtain ⟨b, hb⟩ := committed_isPrefixOf (rd'.frames maxOffset)
        have hlog : rd'.frames maxOffset = a ++ x :: (more ++ b) := by
          rw [← hb, hmore, ha]
          simp
        have hcom : committed (rd'.frames maxOffset) = a ++ [x] ++ committed (more ++ b) := by
          rw [hlog, ← List.singleton_append, ← List.append_assoc]
          exact committed_append (committed_concat_of_commit hx)
        have hrest : committed (more ++ b) = more := by
          rw [hmore, ha] at hcom
          exact (List.append_cancel_left hcom).symm
        -- no commit behind the old ones: the size is the same
        cases hm : more.getLast? with
        | none =>
            rw [hmore, List.getLast?_eq_none_iff.mp hm, List.append_nil, hlast] at hlast'
            cases hlast'
            exact hlt hsize
        -- the size grew, and a growing commit writes what it adds
        | some last' =>
            rw [hmore, List.getLast?_append, hm, Option.some_or] at hlast'
            cases hlast'
            have hmem := hgrow.mem hlog hx (hrest.symm ▸ hm) (Nat.not_le.mp hlt) hsize hskip
            rw [hrest] at hmem
            exact hfind.2 hmem

end WalReader

end Liters
