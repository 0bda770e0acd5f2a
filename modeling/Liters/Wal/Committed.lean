import Liters.Foundation.CommitLog
import Liters.Wal.Reader
import Liters.Ltx.Types

/-! # The committed frames of a WAL

What the frames of a WAL say, apart from how they are scanned: a slot is linked if its frame is
complete, carries the salts of the header and continues the checksum chain; the frames of the WAL
are those of the longest run of linked slots, a log with commit marks. `page_map_until` computes the
committed part of that log, from the top and from any slot of the chain. -/

namespace Liters

namespace WalReader

open LogEntry

/-! ## Slots -/

variable (rd : WalReader)

/-- Where a slot starts. -/
def slotStart (i : Nat) : Nat := walHeaderSize + i * rd.frameSize

/-- The frame header in a slot. -/
def slotHdr (i : Nat) : Bytes := readAt rd.r (rd.slotStart i) walFrameHeaderSize

/-- The page in a slot. -/
def slotData (i : Nat) : Bytes := readAt rd.r (rd.slotStart i + walFrameHeaderSize) rd.pageSize

/-- The checksum of the header and the frames before a slot, for a reader at the top. -/
def chainSum : Nat → UInt32 × UInt32
  | 0 => rd.chksum
  | i + 1 =>
      walChecksum rd.bigEndian (walChecksum rd.bigEndian (chainSum i) ((rd.slotHdr i).take 8))
        (rd.slotData i)

/-- A slot whose frame is complete, carries the salts and continues the checksum chain. -/
structure Linked (i : Nat) : Prop where
  complete : rd.slotStart (i + 1) ≤ rd.r.length
  salt1 : beField (rd.slotHdr i) 8 = rd.salt1
  salt2 : beField (rd.slotHdr i) 12 = rd.salt2
  checksum : storedChecksum (rd.slotHdr i) 16 = rd.chainSum (i + 1)

instance (i : Nat) : Decidable (rd.Linked i) :=
  decidable_of_iff (rd.slotStart (i + 1) ≤ rd.r.length ∧ beField (rd.slotHdr i) 8 = rd.salt1 ∧
      beField (rd.slotHdr i) 12 = rd.salt2 ∧ storedChecksum (rd.slotHdr i) 16 = rd.chainSum (i + 1))
    ⟨fun h => ⟨h.1, h.2.1, h.2.2.1, h.2.2.2⟩, fun h => ⟨h.complete, h.salt1, h.salt2, h.checksum⟩⟩

/-- The first `n` slots are linked and start before `endOffset`. -/
def Chain (endOffset n : Nat) : Prop := ∀ i < n, rd.Linked i ∧ rd.slotStart i < endOffset

instance (endOffset n : Nat) : Decidable (rd.Chain endOffset n) := Nat.decidableBallLT n _

/-- How many slots the longest chain has; there are no more slots than bytes. -/
def chainLength (endOffset : Nat) : Nat := Nat.findGreatest (rd.Chain endOffset) rd.r.length

/-- The frame in a slot as a log entry: its page number, where it starts, and the size it
commits. -/
def entryAt (i : Nat) : LogEntry :=
  ⟨beField (rd.slotHdr i) 0, rd.slotStart i, beField (rd.slotHdr i) 4⟩

/-- The frames of some slots. -/
def entries (i n : Nat) : List LogEntry := (List.range' i n).map rd.entryAt

/-- The frames of the WAL up to an offset. -/
def frames (endOffset : Nat) : List LogEntry := rd.entries 0 (rd.chainLength endOffset)

/-- A reader at a slot of the chain. -/
def atSlot (i : Nat) : WalReader := { rd with frameN := i, chksum := rd.chainSum i }

/-! ## The longest chain -/

variable {rd}

/-- A frame takes up some bytes. -/
theorem frameSize_pos : 0 < rd.frameSize := Nat.lt_of_lt_of_le (by decide) (Nat.le_add_right _ _)

/-- Slots follow each other. -/
theorem slotStart_succ (i : Nat) : rd.slotStart (i + 1) = rd.slotStart i + rd.frameSize := by
  rw [slotStart, slotStart, Nat.succ_mul, Nat.add_assoc]

/-- Later slots start later. -/
theorem slotStart_strictMono : StrictMono rd.slotStart := by
  refine strictMono_nat_of_lt_succ fun i => ?_
  rw [slotStart_succ]
  exact Nat.lt_add_of_pos_right frameSize_pos

/-- A complete slot has a number below the length of the file. -/
theorem Linked.lt_length {i : Nat} (h : rd.Linked i) : i < rd.r.length := by
  have hle : i + 1 ≤ (i + 1) * rd.frameSize := Nat.le_mul_of_pos_right _ frameSize_pos
  have := h.complete
  rw [slotStart] at this
  omega

/-- The chain has the length computed for it. -/
theorem chain_chainLength (endOffset : Nat) : rd.Chain endOffset (rd.chainLength endOffset) :=
  Nat.findGreatest_spec (P := rd.Chain endOffset) (m := 0) (Nat.zero_le _) fun _ hi =>
    absurd hi (Nat.not_lt_zero _)

/-- The slot behind the longest chain is not linked or starts too late. -/
theorem not_linked_chainLength (endOffset : Nat) :
    ¬ (rd.Linked (rd.chainLength endOffset) ∧
      rd.slotStart (rd.chainLength endOffset) < endOffset) := by
  intro h
  have hchain : rd.Chain endOffset (rd.chainLength endOffset + 1) := by
    intro i hi
    rcases Nat.lt_succ_iff_lt_or_eq.mp hi with hi | rfl
    · exact chain_chainLength endOffset i hi
    · exact h
  have := Nat.le_findGreatest (P := rd.Chain endOffset) (Nat.succ_le_of_lt h.1.lt_length) hchain
  exact absurd this (Nat.not_succ_le_self _)

/-- A chain that cannot be continued is the longest one. -/
theorem chainLength_eq {endOffset n : Nat} (h : rd.Chain endOffset n)
    (hn : ¬ (rd.Linked n ∧ rd.slotStart n < endOffset)) : rd.chainLength endOffset = n := by
  refine Nat.le_antisymm (Nat.not_lt.mp fun hlt => ?_) (Nat.not_lt.mp fun hlt => ?_)
  · exact hn (chain_chainLength endOffset n hlt)
  · exact not_linked_chainLength endOffset (h _ hlt)

/-! ## Reading along the chain -/

/-- A reader at a slot reads that slot next. -/
@[simp] theorem atSlot_nextStart (i : Nat) : (rd.atSlot i).nextStart = rd.slotStart i := rfl

/-- A complete slot is one whose header and page are read in full. -/
theorem complete_iff (i : Nat) :
    rd.slotStart (i + 1) ≤ rd.r.length ↔
      (rd.slotHdr i).length = walFrameHeaderSize ∧ (rd.slotData i).length = rd.pageSize := by
  have hpos : 0 < walFrameHeaderSize := by decide
  have hsize : rd.frameSize = walFrameHeaderSize + rd.pageSize := rfl
  rw [slotStart_succ, slotHdr, slotData, readAt_length, readAt_length]
  omega

/-- At a slot of the chain a frame is read exactly if the slot is linked. -/
theorem readFrame_atSlot (i : Nat) :
    (rd.Linked i → (rd.atSlot i).readFrame =
      (some ⟨(rd.entryAt i).key, (rd.entryAt i).commit⟩, rd.atSlot (i + 1))) ∧
    (¬ rd.Linked i → ((rd.atSlot i).readFrame).1 = none) := by
  have hhdr : readAt (rd.atSlot i).r (rd.atSlot i).nextStart walFrameHeaderSize = rd.slotHdr i :=
    rfl
  have hdata : readAt (rd.atSlot i).r ((rd.atSlot i).nextStart + walFrameHeaderSize)
      (rd.atSlot i).pageSize = rd.slotData i := rfl
  have hsum : walChecksum (rd.atSlot i).bigEndian
      (walChecksum (rd.atSlot i).bigEndian (rd.atSlot i).chksum ((rd.slotHdr i).take 8))
        (rd.slotData i)
      = rd.chainSum (i + 1) := rfl
  have hsalt1 : (rd.atSlot i).salt1 = rd.salt1 := rfl
  have hsalt2 : (rd.atSlot i).salt2 = rd.salt2 := rfl
  have hps : (rd.atSlot i).pageSize = rd.pageSize := rfl
  unfold readFrame readFrameInner
  simp only [hhdr, hdata, hsum, hsalt1, hsalt2, if_true]
  constructor
  · -- every check of readFrame passes
    intro h
    obtain ⟨hlen, hlen'⟩ := (complete_iff i).mp h.complete
    rw [if_neg (not_not.mpr hlen), if_neg (not_not.mpr (hlen'.trans hps.symm)),
      if_neg (by rw [h.salt1, h.salt2]; simp), if_neg (not_not.mpr h.checksum.symm)]
    rfl
  · -- the checks in their order; the one that fails ends the reading
    intro h
    by_cases hlen : (rd.slotHdr i).length = walFrameHeaderSize
    · rw [if_neg (not_not.mpr hlen)]
      by_cases hlen' : (rd.slotData i).length = rd.pageSize
      · rw [if_neg (not_not.mpr (hlen'.trans hps.symm))]
        split
        · rfl
        · rename_i hsalts
          rw [not_or, not_not, not_not] at hsalts
          split
          · rfl
          · rename_i hchk
            rw [not_not] at hchk
            exact absurd ⟨(complete_iff i).mpr ⟨hlen, hlen'⟩, hsalts.1.symm, hsalts.2.symm,
              hchk.symm⟩ h
      · rw [if_pos (fun h => hlen' (h.trans hps))]
    · rw [if_pos hlen]

/-- A frame of the log enters the scan. -/
def Scan.entry (s : Scan) (e : LogEntry) : Scan := s.frame ⟨e.key, e.commit⟩ e.value

/-- From a slot of the chain, the loop scans the frames up to the end of the longest chain. -/
theorem scanLoop_atSlot {endOffset fuel i : Nat} (hi : i ≤ rd.chainLength endOffset)
    (hfuel : rd.chainLength endOffset < fuel + i) (s : Scan) :
    (scanLoop endOffset fuel (rd.atSlot i) s).1
      = (rd.entries i (rd.chainLength endOffset - i)).foldl Scan.entry s := by
  -- along the slots that are left
  induction hk : rd.chainLength endOffset - i generalizing i fuel s with
  | zero =>
      have hieq : i = rd.chainLength endOffset := by omega
      obtain ⟨fuel, rfl⟩ := Nat.exists_eq_succ_of_ne_zero (show fuel ≠ 0 by omega)
      rw [scanLoop, atSlot_nextStart]
      by_cases hend : endOffset ≤ rd.slotStart i
      · rw [if_pos hend]
        rfl
      · rw [if_neg hend]
        have hnot : ¬ rd.Linked i := by
          intro hlinked
          rw [hieq] at hlinked hend
          exact not_linked_chainLength endOffset ⟨hlinked, Nat.not_le.mp hend⟩
        have hnone := (readFrame_atSlot i).2 hnot
        split
        · rfl
        · rename_i hread
          rw [hread] at hnone
          cases hnone
  | succ k ih =>
      obtain ⟨fuel, rfl⟩ := Nat.exists_eq_succ_of_ne_zero (show fuel ≠ 0 by omega)
      have hchain : rd.Chain endOffset (rd.chainLength endOffset) := chain_chainLength endOffset
      obtain ⟨hlinked, hstart⟩ := hchain i (by omega)
      have hlist : rd.entries i (k + 1) = rd.entryAt i :: rd.entries (i + 1) k := by
        rw [entries, List.range'_succ, List.map_cons]
        rfl
      rw [scanLoop, atSlot_nextStart, if_neg (Nat.not_le.mpr hstart),
        (readFrame_atSlot i).1 hlinked, hlist, List.foldl_cons]
      exact ih (by omega) (by omega) _ (by omega)

/-! ## What a scan finds -/

/-- A scan of a log: the pages of all its frames, and those of its committed part with the size
there. -/
structure Scan.Of (log : List LogEntry) (s : Scan) : Prop where
  txMap : ∀ k, s.txMap.find? k = latest log k
  m : ∀ k, s.m.find? k = latest (committed log) k
  commit : s.commit = ((committed log).getLast?.map LogEntry.commit).getD 0

/-- A fresh scan has seen nothing. -/
theorem Scan.Of.nil : Scan.Of [] {} where
  txMap _ := rfl
  m _ := rfl
  commit := rfl

/-- One more frame. -/
theorem Scan.Of.concat {log : List LogEntry} {s : Scan} (h : Scan.Of log s) (e : LogEntry) :
    Scan.Of (log ++ [e]) (s.entry e) := by
  have htx : ∀ k, (s.txMap.insert e.key e.value).find? k = latest (log ++ [e]) k := by
    intro k
    rw [SortedMap.find?_insert, h.txMap, latest_concat]
  unfold Scan.entry Scan.frame
  dsimp only
  by_cases he : e.commit = 0
  · rw [if_neg (not_not.mpr he)]
    exact ⟨htx, by rw [committed_concat_of_not he]; exact h.m,
      by rw [committed_concat_of_not he]; exact h.commit⟩
  · rw [if_pos he]
    refine ⟨htx, fun k => ?_, ?_⟩
    · -- what was committed before is among all frames so far
      rw [committed_concat_of_commit he, SortedMap.find?_insertAll, htx, h.m]
      cases hk : latest (log ++ [e]) k with
      | some v => rfl
      | none =>
          rw [latest_eq_none_iff] at hk
          rw [Option.none_or, latest_eq_none_iff]
          refine fun hmem => hk ?_
          rw [List.map_append]
          exact List.mem_append_left _ (((committed_isPrefixOf log).map _).subset hmem)
    · rw [committed_concat_of_commit he, List.getLast?_concat]
      rfl

/-- A scan of a whole log. -/
theorem Scan.of_foldl (log : List LogEntry) : Scan.Of log (log.foldl Scan.entry {}) := by
  induction log using List.reverseRecOn with
  | nil => exact .nil
  | append_singleton log e ih =>
      rw [List.foldl_append]
      exact ih.concat e

/-- The page map that a log stands for: nothing if nothing is committed; else the size and the end
of the last commit frame, and for each page number up to the size where its last committed frame
starts. -/
structure IsPageMap (frameSize : Nat) (log : List LogEntry) (pm : PageMap) : Prop where
  none : committed log = [] → pm = {}
  commit : ∀ {last}, (committed log).getLast? = some last → pm.commit = last.commit
  maxOffset : ∀ {last}, (committed log).getLast? = some last → pm.maxOffset = last.value + frameSize
  pages : ∀ {last}, (committed log).getLast? = some last →
    ∀ pgno, pm.pages.find? pgno = if pgno ≤ last.commit then latest (committed log) pgno
      else Option.none

/-- The highest value of a map that holds `v` and nothing above it. -/
theorem maxValue_eq {m : SortedMap Nat} {k v : Nat} (h : m.find? k = some v)
    (hle : ∀ k' v', m.find? k' = some v' → v' ≤ v) : maxValue m = v := by
  have hfold : ∀ (l : List Nat) (a : Nat), (∀ x ∈ l, x ≤ v) → a ≤ v → (v ∈ l ∨ a = v) →
      l.foldl max a = v := by
    intro l
    induction l with
    | nil =>
        rintro a - - (hv | hv)
        · cases hv
        · exact hv
    | cons x l ih =>
        intro a hl ha hv
        have hx := hl x (List.mem_cons_self ..)
        refine ih _ (fun y hy => hl y (List.mem_cons_of_mem _ hy)) (Nat.max_le.mpr ⟨ha, hx⟩) ?_
        rcases hv with hv | hv
        · rcases List.mem_cons.mp hv with rfl | hv
          · exact .inr (Nat.max_eq_right ha)
          · exact .inl hv
        · exact .inr (hv ▸ Nat.max_eq_left (hv ▸ hx))
  refine hfold _ 0 ?_ (Nat.zero_le _) (.inl ?_)
  · intro x hx
    obtain ⟨⟨k', v'⟩, he, rfl⟩ := List.mem_map.mp hx
    exact hle k' v' (SortedMap.mem_entries_iff.mp he)
  · exact List.mem_map.mpr ⟨(k, v), SortedMap.mem_entries_iff.mpr h, rfl⟩

/-- The finished scan of a log whose frames come one behind the other, and whose commit frames carry
a page of the database. -/
theorem Scan.Of.isPageMap {log : List LogEntry} {s : Scan} (h : Scan.Of log s)
    (hvalue : log.Pairwise fun e e' => e.value < e'.value)
    (hpgno : ∀ e ∈ log, e.commit ≠ 0 → e.key ≤ e.commit) (frameSize : Nat) :
    IsPageMap frameSize log (s.pageMap frameSize) := by
  have hpages : ∀ {last}, (committed log).getLast? = some last → ∀ pgno,
      (s.m.filterKeys fun pgno => pgno ≤ s.commit).find? pgno
        = if pgno ≤ last.commit then latest (committed log) pgno else Option.none := by
    intro last hlast pgno
    have hcommit : s.commit = last.commit := by rw [h.commit, hlast]; rfl
    rw [SortedMap.find?_filterKeys, h.m, hcommit]
    simp only [decide_eq_true_eq]
  -- the last commit frame carries a page, so it is in the map, and it starts behind all others
  have hlastFrame : ∀ {last}, (committed log).getLast? = some last →
      (s.m.filterKeys fun pgno => pgno ≤ s.commit).find? last.key = some last.value ∧
      ∀ k v, (s.m.filterKeys fun pgno => pgno ≤ s.commit).find? k = some v → v ≤ last.value := by
    intro last hlast
    have hne := commit_of_getLast? hlast
    obtain ⟨front, hfront⟩ := List.getLast?_eq_some_iff.mp hlast
    have hmem : last ∈ log := (committed_isPrefixOf log).subset (List.mem_of_getLast? hlast)
    constructor
    · rw [hpages hlast, if_pos (hpgno last hmem hne), hfront, latest_concat, if_pos rfl]
    · intro k v hkv
      rw [hpages hlast] at hkv
      split at hkv
      · obtain ⟨e, he, -, rfl⟩ := exists_of_latest hkv
        have hsorted := hvalue.sublist (committed_isPrefixOf log).sublist
        rw [hfront] at he hsorted
        rcases List.mem_append.mp he with he | he
        · exact ((List.pairwise_append.mp hsorted).2.2 e he last (List.mem_singleton_self _)).le
        · exact (congrArg LogEntry.value (List.mem_singleton.mp he)).le
      · cases hkv
  have hsome : ∀ {last}, (committed log).getLast? = some last →
      (s.m.filterKeys fun pgno => pgno ≤ s.commit).entries ≠ [] := by
    intro last hlast
    exact List.ne_nil_of_mem (SortedMap.mem_entries_iff.mpr (hlastFrame hlast).1)
  unfold Scan.pageMap
  refine ⟨fun hnil => ?_, fun hlast => ?_, fun hlast => ?_, fun hlast => ?_⟩
  · refine if_pos (List.eq_nil_iff_forall_not_mem.mpr ?_)
    rintro ⟨k, v⟩ hkv
    rw [SortedMap.mem_entries_iff, SortedMap.find?_filterKeys, h.m, hnil, latest_nil] at hkv
    split at hkv <;> cases hkv
  · rw [if_neg (hsome hlast)]
    show s.commit = _
    rw [h.commit, hlast]
    rfl
  · rw [if_neg (hsome hlast)]
    show maxValue _ + frameSize = _
    rw [maxValue_eq (hlastFrame hlast).1 (hlastFrame hlast).2]
  · rw [if_neg (hsome hlast)]
    exact hpages hlast

/-- A log stands for one page map. -/
theorem IsPageMap.unique {frameSize : Nat} {log : List LogEntry} {pm pm' : PageMap}
    (h : IsPageMap frameSize log pm) (h' : IsPageMap frameSize log pm') : pm = pm' := by
  cases hlast : (committed log).getLast? with
  | none =>
      rw [List.getLast?_eq_none_iff] at hlast
      rw [h.none hlast, h'.none hlast]
  | some last =>
      obtain ⟨pages, maxOffset, commit⟩ := pm
      obtain ⟨pages', maxOffset', commit'⟩ := pm'
      have hpages : pages = pages' :=
        SortedMap.ext_find? fun k => (h.pages hlast k).trans (h'.pages hlast k).symm
      have hmax : maxOffset = maxOffset' := (h.maxOffset hlast).trans (h'.maxOffset hlast).symm
      have hcommit : commit = commit' := (h.commit hlast).trans (h'.commit hlast).symm
      rw [hpages, hmax, hcommit]

/-- Only the committed part of a log counts. -/
theorem IsPageMap.of_committed_eq {frameSize : Nat} {log log' : List LogEntry} {pm : PageMap}
    (h : IsPageMap frameSize log pm) (heq : committed log' = committed log) :
    IsPageMap frameSize log' pm := by
  refine ⟨?_, ?_, ?_, ?_⟩
  · rw [heq]
    exact h.none
  · rw [heq]
    exact h.commit
  · rw [heq]
    exact h.maxOffset
  · rw [heq]
    exact h.pages

/-! ## The page map of a WAL -/

/-- The entries of a log are in the order of their offsets. -/
theorem entries_pairwise (i n : Nat) :
    (rd.entries i n).Pairwise fun e e' => e.value < e'.value := by
  refine List.pairwise_map.mpr ?_
  exact (List.pairwise_lt_range' 1).imp fun h => slotStart_strictMono h

/-- The entries of two runs of slots follow each other. -/
theorem entries_append (i n k : Nat) :
    rd.entries i (n + k) = rd.entries i n ++ rd.entries (i + n) k := by
  rw [entries, entries, entries, ← List.map_append, List.range'_append_1]

/-- From a slot of the longest chain, the scan finds the page map of the frames behind it. -/
theorem pageMapUntil_atSlot {endOffset i : Nat} (hi : i ≤ rd.chainLength endOffset)
    (hpgno : ∀ e ∈ rd.entries i (rd.chainLength endOffset - i), e.commit ≠ 0 → e.key ≤ e.commit) :
    IsPageMap rd.frameSize (rd.entries i (rd.chainLength endOffset - i))
      ((rd.atSlot i).pageMapUntil endOffset).1 := by
  have hle : rd.chainLength endOffset ≤ rd.r.length := Nat.findGreatest_le _
  have hfuel : rd.chainLength endOffset < rd.r.length + 1 + i := by omega
  have hscan := scanLoop_atSlot hi hfuel {}
  have hpm : ((rd.atSlot i).pageMapUntil endOffset).1
      = ((scanLoop endOffset (rd.r.length + 1) (rd.atSlot i) {}).1).pageMap rd.frameSize := rfl
  rw [hpm, hscan]
  exact (Scan.of_foldl _).isPageMap (entries_pairwise _ _) hpgno _

/-- A reader that has just been opened stands at the first slot. -/
theorem atSlot_zero_of_new {wal : Bytes} {rd : WalReader} (h : new wal = .ok rd) :
    rd.atSlot 0 = rd := by
  unfold new at h
  obtain ⟨-, -, h⟩ := bind_eq_ok_iff.mp h
  obtain ⟨bigEndian, -, h⟩ := bind_eq_ok_iff.mp h
  obtain ⟨-, -, h⟩ := bind_eq_ok_iff.mp h
  obtain ⟨-, -, h⟩ := bind_eq_ok_iff.mp h
  cases h
  rfl

/-- What a reader that has just been opened reads. -/
theorem r_of_new {wal : Bytes} {rd : WalReader} (h : new wal = .ok rd) : rd.r = wal := by
  unfold new at h
  obtain ⟨-, -, h⟩ := bind_eq_ok_iff.mp h
  obtain ⟨bigEndian, -, h⟩ := bind_eq_ok_iff.mp h
  obtain ⟨-, -, h⟩ := bind_eq_ok_iff.mp h
  obtain ⟨-, -, h⟩ := bind_eq_ok_iff.mp h
  cases h
  rfl

/-- A reader takes its salts from the header. -/
theorem salts_of_new {wal : Bytes} {rd : WalReader} (h : new wal = .ok rd) :
    (rd.salt1, rd.salt2) = (beField (readAt wal 0 walHeaderSize) 16,
      beField (readAt wal 0 walHeaderSize) 20) := by
  unfold new at h
  obtain ⟨-, -, h⟩ := bind_eq_ok_iff.mp h
  obtain ⟨bigEndian, -, h⟩ := bind_eq_ok_iff.mp h
  obtain ⟨-, -, h⟩ := bind_eq_ok_iff.mp h
  obtain ⟨-, -, h⟩ := bind_eq_ok_iff.mp h
  cases h
  rfl

/-- The page map of a reader that has just been opened. -/
theorem isPageMap_of_new {wal : Bytes} {rd : WalReader} (hnew : new wal = .ok rd) (endOffset : Nat)
    (hpgno : ∀ e ∈ rd.frames endOffset, e.commit ≠ 0 → e.key ≤ e.commit) :
    IsPageMap rd.frameSize (rd.frames endOffset) (rd.pageMapUntil endOffset).1 := by
  have := pageMapUntil_atSlot (Nat.zero_le (rd.chainLength endOffset)) hpgno
  rwa [atSlot_zero_of_new hnew] at this

/-- The same committed frames have the same page map. -/
theorem pageMapUntil_congr {wal wal' : Bytes} {rd rd' : WalReader} {endOffset endOffset' : Nat}
    (hnew : new wal = .ok rd) (hpgno : ∀ e ∈ rd.frames endOffset, e.commit ≠ 0 → e.key ≤ e.commit)
    (hnew' : new wal' = .ok rd') (hsize : rd'.pageSize = rd.pageSize)
    (hcom : committed (rd'.frames endOffset') = committed (rd.frames endOffset)) :
    (rd'.pageMapUntil endOffset').1 = (rd.pageMapUntil endOffset).1 := by
  have hpgno' : ∀ e ∈ rd'.frames endOffset', e.commit ≠ 0 → e.key ≤ e.commit := by
    intro e he hcommit
    refine hpgno e ((committed_isPrefixOf _).subset ?_) hcommit
    rw [← hcom]
    exact mem_committed he hcommit
  have hpm := isPageMap_of_new hnew endOffset hpgno
  have hpm' := isPageMap_of_new hnew' endOffset' hpgno'
  have hframe : rd'.frameSize = rd.frameSize := by rw [frameSize, hsize, frameSize]
  rw [hframe] at hpm'
  exact hpm'.unique (hpm.of_committed_eq hcom)

/-- `page_map_until` computes the committed part of the WAL: the page map of the committed frames
among the longest sequence of frames that are complete, carry the salts, continue the checksum chain
and start before the end. Another WAL with the same committed frames has the same page map, whatever
stands behind them. -/
theorem pageMapUntil_new {wal : Bytes} {rd : WalReader} (hnew : new wal = .ok rd) (endOffset : Nat)
    (hpgno : ∀ e ∈ rd.frames endOffset, e.commit ≠ 0 → e.key ≤ e.commit) :
    IsPageMap rd.frameSize (rd.frames endOffset) (rd.pageMapUntil endOffset).1 ∧
      ∀ {wal' : Bytes} {rd' : WalReader} (endOffset' : Nat), new wal' = .ok rd' →
        rd'.pageSize = rd.pageSize →
        committed (rd'.frames endOffset') = committed (rd.frames endOffset) →
        (rd'.pageMapUntil endOffset').1 = (rd.pageMapUntil endOffset).1 := by
  refine ⟨isPageMap_of_new hnew endOffset hpgno, ?_⟩
  intro wal' rd' endOffset' hnew' hsize hcom
  exact pageMapUntil_congr hnew hpgno hnew' hsize hcom

/-! ## WALs as SQLite writes them -/

/-- The words of a checksum as they are stored. -/
def checksumBytes (s : UInt32 × UInt32) : Bytes := beBytes 4 s.1.toNat ++ beBytes 4 s.2.toNat

/-- A WAL header, with its checksum. -/
def headerBytes (bigEndian : Bool) (pageSize salt1 salt2 : Nat) : Bytes :=
  let hdr := beBytes 4 (if bigEndian then walMagicBe else walMagicLe) ++ beBytes 4 walVersion
    ++ beBytes 4 pageSize ++ beBytes 4 0 ++ beBytes 4 salt1 ++ beBytes 4 salt2
  hdr ++ checksumBytes (walChecksum bigEndian (0, 0) hdr)

/-- Frames behind a header, each with the salts and the running checksum. -/
def frameBytes (bigEndian : Bool) (salt1 salt2 : Nat) :
    UInt32 × UInt32 → List (WalFrame × Bytes) → Bytes
  | _, [] => []
  | s, (frame, page) :: rest =>
      let hdr := beBytes 4 frame.pgno ++ beBytes 4 frame.commit
      let s' := walChecksum bigEndian (walChecksum bigEndian s hdr) page
      hdr ++ beBytes 4 salt1 ++ beBytes 4 salt2 ++ checksumBytes s' ++ page
        ++ frameBytes bigEndian salt1 salt2 s' rest

/-- A WAL of some frames. -/
def walBytes (bigEndian : Bool) (pageSize salt1 salt2 : Nat) (frames : List (WalFrame × Bytes)) :
    Bytes :=
  let hdr := headerBytes bigEndian pageSize salt1 salt2
  hdr ++ frameBytes bigEndian salt1 salt2 (storedChecksum hdr 24) frames

/-- Two transactions and a third one that is not committed. -/
def sampleWal : Bytes :=
  walBytes true 512 7 9 [(⟨1, 1⟩, List.replicate 512 0), (⟨2, 2⟩, List.replicate 512 1),
    (⟨1, 0⟩, List.replicate 512 2)]

/-- A reader at the top of it. -/
def sampleReader : WalReader where
  r := sampleWal
  bigEndian := true
  pageSize := 512
  salt1 := 7
  salt2 := 9
  chksum := storedChecksum sampleWal 24

/-- The sample WAL has a reader. -/
theorem new_sampleWal : new sampleWal = .ok sampleReader := by decide +kernel

/-- It has a chain of three frames. -/
theorem chainLength_sampleReader : sampleReader.chainLength maxOffset = 3 :=
  chainLength_eq (by decide +kernel) (by decide +kernel)

/-- The three frames. -/
theorem frames_sampleReader :
    sampleReader.frames maxOffset = [⟨1, 32, 1⟩, ⟨2, 568, 2⟩, ⟨1, 1104, 0⟩] := by
  rw [frames, chainLength_sampleReader]
  decide +kernel

/-- Its commits hold the pages they commit. -/
theorem pgno_le_sampleReader :
    ∀ e ∈ sampleReader.frames maxOffset, e.commit ≠ 0 → e.key ≤ e.commit := by
  rw [frames_sampleReader]
  decide

/-- The page map of the sample WAL. -/
theorem pageMapUntil_new_sampleWal :
    IsPageMap 536 (sampleReader.frames maxOffset) (sampleReader.pageMapUntil maxOffset).1 :=
  (pageMapUntil_new new_sampleWal maxOffset pgno_le_sampleReader).1

end WalReader

end Liters
