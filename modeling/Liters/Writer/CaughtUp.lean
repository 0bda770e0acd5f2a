import Liters.Writer.LiveDb

/-! # What a sync leaves

A sync that succeeds leaves an L0 file that ends where the committed part of the WAL does and holds
its last frame, or leaves everything as it was. So the L0 files stay in track with the database over
any run in which applications use it and the writer syncs it. -/

namespace Liters

namespace WalReader

open LogEntry

variable {rd : WalReader} {wal : Bytes}

/-- The frame that commits last is in the page map. -/
theorem IsPageMap.find?_last {frameSize : Nat} {log : List LogEntry} {pm : PageMap}
    (h : IsPageMap frameSize log pm) (hpgno : ∀ e ∈ log, e.commit ≠ 0 → e.key ≤ e.commit)
    {last : LogEntry}
    (hlast : (committed log).getLast? = some last) : pm.pages.find? last.key = some last.value := by
  have hmem : last ∈ log := (committed_isPrefixOf log).subset (List.mem_of_getLast? hlast)
  obtain ⟨front, hfront⟩ := List.getLast?_eq_some_iff.mp hlast
  rw [h.pages hlast, if_pos (hpgno last hmem (commit_of_getLast? hlast)), hfront, latest_concat,
    if_pos rfl]

/-- Where the committed part ends is its last frame. -/
theorem exists_last_of_committedEnd (h : walHeaderSize < rd.committedEnd) :
    ∃ i, (committed (rd.frames maxOffset)).getLast? = some (rd.entryAt i) ∧
      (rd.entryAt i).commit ≠ 0 ∧
      i < rd.chainLength maxOffset ∧ rd.committedEnd = rd.slotStart (i + 1) := by
  obtain ⟨hcom, hle⟩ := @committed_frames rd maxOffset
  unfold committedEnd at h ⊢
  generalize (committed (rd.frames maxOffset)).length = n at hcom hle h
  rcases n with _ | i
  · rw [slotStart_zero] at h
    exact absurd h (Nat.lt_irrefl _)
  · have hlast : (committed (rd.frames maxOffset)).getLast? = some (rd.entryAt i) := by
      rw [hcom, entries, List.range'_concat, List.map_append, List.map_singleton,
        List.getLast?_concat, Nat.zero_add, Nat.one_mul]
    exact ⟨i, hlast, commit_of_getLast? hlast, hle, rfl⟩

/-- The part behind a commit ends with the frame that the whole ends with. -/
theorem getLast?_committed_rest {i : Nat} (hi : i < rd.chainLength maxOffset)
    (hcommit : (rd.entryAt i).commit ≠ 0) {last : LogEntry}
    (hlast : (committed (rd.entries (i + 1) (rd.chainLength maxOffset - (i + 1)))).getLast? =
      some last) :
    (committed (rd.frames maxOffset)).getLast? = some last := by
  rw [frames_split hi, committed_append (committed_concat_of_commit hcommit), List.getLast?_append,
    hlast, Option.some_or]

/-- The page map behind a frame is that of the frames behind it. -/
theorem isPageMap_rest {i : Nat} (hi : i < rd.chainLength maxOffset)
    (hpgno : ∀ e ∈ rd.frames maxOffset, e.commit ≠ 0 → e.key ≤ e.commit) :
    (∀ e ∈ rd.entries (i + 1) (rd.chainLength maxOffset - (i + 1)),
        e.commit ≠ 0 → e.key ≤ e.commit) ∧
      IsPageMap rd.frameSize (rd.entries (i + 1) (rd.chainLength maxOffset - (i + 1)))
        (rd.atSlot (i + 1)).pageMap.1 := by
  have hpgno' : ∀ e ∈ rd.entries (i + 1) (rd.chainLength maxOffset - (i + 1)),
      e.commit ≠ 0 → e.key ≤ e.commit := by
    intro e he
    refine hpgno e ?_
    rw [frames_split hi]
    exact List.mem_append_right _ he
  exact ⟨hpgno', pageMapUntil_atSlot (Nat.succ_le_of_lt hi) hpgno'⟩

/-- The page size of a header has 32 bits. -/
theorem pageSize_lt_of_new (hnew : new wal = .ok rd) : rd.pageSize < 2 ^ 32 := by
  unfold new at hnew
  obtain ⟨-, -, hnew⟩ := bind_eq_ok_iff.mp hnew
  obtain ⟨bigEndian, -, hnew⟩ := bind_eq_ok_iff.mp hnew
  obtain ⟨-, -, hnew⟩ := bind_eq_ok_iff.mp hnew
  obtain ⟨-, -, hnew⟩ := bind_eq_ok_iff.mp hnew
  cases hnew
  exact beField_lt _ _

/-- The salts of a header have 32 bits. -/
theorem salts_lt_of_new (hnew : new wal = .ok rd) : rd.salt1 < 2 ^ 32 ∧ rd.salt2 < 2 ^ 32 := by
  obtain ⟨hsalt1, hsalt2⟩ := Prod.mk.inj (salts_of_new hnew)
  rw [hsalt1, hsalt2]
  exact ⟨beField_lt _ _, beField_lt _ _⟩

end WalReader

namespace Local

open WalReader LogEntry

section
variable {c : Codec} {pageSize : Nat} {files : Files} {state : SyncState} {pos : Nat}
  {info : SyncInfo} {now : Int64} {outcome : Local.SyncOutcome} {l0 : Option LtxFile}
  {rd rd' : WalReader} {base : Image Bytes} {chain : List LtxFile}
  {snapshotting : Bool} {offset size : Nat}

/-- A sync reads with the salts of the header. -/
theorem ReadsFrom.salts_eq (h : ReadsFrom rd base chain snapshotting rd' offset) :
    (rd'.salt1, rd'.salt2) = (rd.salt1, rd.salt2) := by
  cases h <;> rfl

/-- **The frame that is committed last** is among the pages that a sync reads, if it reads any. -/
theorem ReadsFrom.find?_last (h : ReadsFrom rd base chain snapshotting rd' offset)
    (hnew : new files.wal = .ok rd) {skip : Nat}
    (hgrow : GrowsFrom skip base.size (rd.frames maxOffset))
    (hpgno : ∀ e ∈ rd.frames maxOffset, e.commit ≠ 0 → e.key ≤ e.commit)
    (hsize : consumedSize rd'.pageMap.1 offset = .ok size) (hwork : snapshotting = true ∨ 0 < size)
    {last : LogEntry} (hlast : (committed (rd.frames maxOffset)).getLast? = some last) :
    rd'.pageMap.1.pages.find? last.key = some last.value := by
  have hpm : IsPageMap rd.frameSize (rd.frames maxOffset) rd.pageMap.1 :=
    isPageMap_of_new hnew maxOffset hpgno
  cases h with
  -- read from the top the whole map is there
  | snapshot => exact hpm.find?_last hpgno hlast
  | top => exact hpm.find?_last hpgno hlast
  -- behind the resume point the newest commit is the newest of all
  | @resumed hsnap i hi hcommit =>
      obtain ⟨-, hend⟩ := overlay_resume hnew hgrow hpgno hi hcommit
      rcases hend with ⟨hempty, -⟩ | ⟨hne, -⟩
      · -- nothing was read
        rw [hempty, consumedSize, if_neg (Nat.lt_irrefl 0)] at hsize
        cases hsize
        rcases hwork with htrue | hpos
        · rw [hsnap] at htrue
          cases htrue
        · exact absurd hpos (Nat.lt_irrefl 0)
      · obtain ⟨hpgno', hrest⟩ := isPageMap_rest hi hpgno
        cases hlast' : (committed
            (rd.entries (i + 1) (rd.chainLength maxOffset - (i + 1)))).getLast? with
        | none =>
            rw [hrest.none (List.getLast?_eq_none_iff.mp hlast')] at hne
            exact absurd rfl hne
        | some last' =>
            have hboth := getLast?_committed_rest hi hcommit hlast'
            rw [hlast] at hboth
            cases hboth
            exact hrest.find?_last hpgno' hlast'

/-- A page that the page map has is read from the WAL, by a snapshot and by an incremental file. -/
theorem mem_l0Pages {pm : PageMap} {p start commit : Nat} {pages : List Page}
    (hpages : l0Pages snapshotting pageSize files commit pm = .ok pages)
    (hfind : pm.pages.find? p = some start) (hpos : 0 < p) (hle : snapshotting = true → p ≤ commit)
    (hlock : p ≠ lockPgno pageSize) :
    (p, readAt files.wal (start + walFrameHeaderSize) pageSize) ∈ pages := by
  have hmem : ∀ {pgnos : List Nat},
      readPages (sourcePage shortRead shortRead pageSize pm files) pgnos = .ok pages →
      p ∈ pgnos → (p, readAt files.wal (start + walFrameHeaderSize) pageSize) ∈ pages := by
    intro pgnos hread hp
    obtain ⟨hfst, hdata⟩ := readPages_eq_ok hread
    rw [← hfst] at hp
    obtain ⟨⟨p', data⟩, hpage, rfl⟩ := List.mem_map.mp hp
    have hsource := hdata _ hpage
    dsimp only at hfind hsource ⊢
    rw [sourcePage, hfind] at hsource
    rwa [← readOr_eq_ok hsource]
  unfold l0Pages at hpages
  split at hpages
  · rename_i hsnap
    have hle' := hle hsnap
    refine hmem hpages (List.mem_filter.mpr ⟨List.mem_range'_1.mpr ⟨hpos, by omega⟩, ?_⟩)
    simpa using hlock
  · refine hmem hpages (SortedMap.mem_keys_iff.mpr ?_)
    rw [hfind]
    rfl

/-- What a snapshot reads is what is committed last. -/
theorem ReadsFrom.commit_eq (h : ReadsFrom rd base chain true rd' offset)
    (hnew : new files.wal = .ok rd)
    (hpgno : ∀ e ∈ rd.frames maxOffset, e.commit ≠ 0 → e.key ≤ e.commit) {last : LogEntry}
    (hlast : (committed (rd.frames maxOffset)).getLast? = some last) :
    rd'.pageMap.1.commit = last.commit := by
  cases h with
  | snapshot => exact (isPageMap_of_new hnew maxOffset hpgno).commit hlast
  | top hsnap => cases hsnap
  | resumed hsnap => cases hsnap

/-- **A sync reads every page by which the database has grown** since the newest L0 file. -/
theorem ReadsFrom.find?_grown (h : ReadsFrom rd base chain snapshotting rd' offset)
    (hnew : new files.wal = .ok rd)
    (hgrow : GrowsFrom (lockPgno rd.pageSize) base.size (rd.frames maxOffset))
    (hpgno : ∀ e ∈ rd.frames maxOffset, e.commit ≠ 0 → e.key ≤ e.commit)
    (hsnap : snapshotting = false) (hsize : consumedSize rd'.pageMap.1 offset = .ok size)
    (hwork : 0 < size) :
    0 < rd'.pageMap.1.commit ∧ ∀ p, (fold rd.pageSize chain).size < p → p ≤ rd'.pageMap.1.commit →
      p ≠ lockPgno rd.pageSize → ∃ start, rd'.pageMap.1.pages.find? p = some start := by
  cases h with
  -- a snapshot does not grow anything
  | snapshot htrue =>
      rw [hsnap] at htrue
      cases htrue
  -- read from the top: every commit of this WAL is in the map
  | top _ hfold =>
      have hpm : IsPageMap rd.frameSize (rd.frames maxOffset) rd.pageMap.1 :=
        isPageMap_of_new hnew maxOffset hpgno
      cases hlast : (committed (rd.frames maxOffset)).getLast? with
      | none =>
          rw [hpm.none (List.getLast?_eq_none_iff.mp hlast), consumedSize, if_neg (Nat.lt_irrefl 0)]
            at hsize
          cases hsize
          exact absurd hwork (Nat.lt_irrefl 0)
      | some last =>
          rw [hpm.commit hlast]
          refine ⟨Nat.pos_of_ne_zero (commit_of_getLast? hlast), fun p hlow hle hlock => ?_⟩
          rw [hfold.1] at hlow
          have hmem := hgrow.mem hlast hlow hle hlock
          rw [hpm.pages hlast, if_pos hle, ← Option.ne_none_iff_exists', Ne, latest_eq_none_iff,
            not_not]
          exact hmem
  -- read from the resume point: the commits behind it are in the map
  | @resumed _ i hi hcommit hfold =>
      obtain ⟨-, hend⟩ := overlay_resume hnew hgrow hpgno hi hcommit
      rcases hend with ⟨hempty, -⟩ | ⟨-, hcpos, -⟩
      · rw [hempty, consumedSize, if_neg (Nat.lt_irrefl 0)] at hsize
        cases hsize
        exact absurd hwork (Nat.lt_irrefl 0)
      · refine ⟨hcpos, fun p hlow hle hlock => ?_⟩
        -- a page between the two sizes was written by a frame behind the resume point
        obtain ⟨-, hrest⟩ := isPageMap_rest hi hpgno
        have hcov := hrest.covers hcommit (frames_split hi ▸ hgrow.later) rd.r rd.pageSize
        obtain ⟨hne, hcom, -⟩ := pageMapUntil_slotStart hnew hpgno hi hcommit
        have hbefore : (rd.stateAt base (rd.slotStart (i + 1))).size = (rd.entryAt i).commit := by
          rw [stateAt_size rfl hne, hcom]
        rw [hfold.1, hbefore] at hlow
        have hsome := hcov p hlow hle hlock
        rw [l0Patch, Option.isSome_map] at hsome
        exact Option.isSome_iff_exists.mp hsome

end

section
variable {c : Codec} {pageSize : Nat} {d : LiveDb} {now : Int64} {outcome : Local.SyncOutcome}

/-- The database after a sync. -/
def LiveDb.synced (d : LiveDb) (outcome : Local.SyncOutcome) (l0 : Option LtxFile) : LiveDb :=
  { d with
    chain := d.chain ++ l0.toList, state := ⟨outcome.newWalSize, outcome.syncedToWalEnd⟩,
    unsynced := false, missed := false }

/-- What a sync that writes a file makes of it. -/
structure MadeOf (pageSize : Nat) (d : LiveDb) (rd : WalReader) (f : LtxFile) : Prop where
  salts : f.walSalts = (rd.salt1, rd.salt2)
  walEnd : f.walEnd = rd.committedEnd
  last : ∀ last, (committed (rd.frames maxOffset)).getLast? = some last →
    (last.key, readAt d.files.wal (last.value + walFrameHeaderSize) pageSize) ∈ f.pages
  covers : f.patch.Covers (lockPgno pageSize) (fold pageSize d.chain).size
  txid : f.hdr.minTxid = UInt64.ofNat (posOf d.chain + 1) ∧
    f.hdr.maxTxid = UInt64.ofNat (posOf d.chain + 1)
  pageSize : f.hdr.pageSize.toNat = pageSize

/-- A local file has the salts of the WAL that it was read from. -/
theorem walSalts_of_l0Header {commit txid offset size : Nat} {rd : WalReader}
    {f : LtxFile} (hhdr : f.hdr = l0Header pageSize commit txid offset size now rd)
    (hsalts : rd.salt1 < 2 ^ 32 ∧ rd.salt2 < 2 ^ 32) : f.walSalts = (rd.salt1, rd.salt2) := by
  rw [LtxFile.walSalts, hhdr]
  show ((UInt32.ofNat rd.salt1).toNat, (UInt32.ofNat rd.salt2).toNat) = _
  rw [UInt32.toNat_ofNat_of_lt' hsalts.1, UInt32.toNat_ofNat_of_lt' hsalts.2]

/-- A local file ends where what was read for it ends. -/
theorem walEnd_of_l0Header {commit txid offset size : Nat} {rd : WalReader} {f : LtxFile}
    (hhdr : f.hdr = l0Header pageSize commit txid offset size now rd)
    (hlt : offset + size < 2 ^ 63) : f.walEnd = offset + size := by
  rw [LtxFile.walEnd, hhdr]
  show (Int64.ofNat offset).toNatClampNeg + (Int64.ofNat size).toNatClampNeg = _
  rw [Int64.toNatClampNeg_ofNat_of_lt (by omega), Int64.toNatClampNeg_ofNat_of_lt (by omega)]

/-- The committed part of a WAL is no longer than the WAL. -/
theorem Tracked.committedEnd_lt (h : Tracked pageSize d) {rd : WalReader}
    (hnew : new d.files.wal = .ok rd) : rd.committedEnd < 2 ^ 63 := by
  rcases Nat.lt_or_ge walHeaderSize rd.committedEnd with hlt | hge
  · have hle := committedEnd_le_length hlt
    rw [r_of_new hnew] at hle
    exact Nat.lt_of_le_of_lt hle h.length
  · exact Nat.lt_of_le_of_lt hge (by decide)

/-- The file that a sync writes ends with the committed part of the WAL. -/
theorem Tracked.madeOf (h : Tracked pageSize d)
    (hnoticed : d.missed = true → ¬ TakenForNext pageSize d) {f : LtxFile}
    (hsync : verifyAndSync c pageSize d.files d.state d.chain now = .ok (outcome, some f)) :
    ∃ rd, new d.files.wal = .ok rd ∧ MadeOf pageSize d rd f := by
  obtain ⟨info, hverify, hsync'⟩ := bind_eq_ok_iff.mp hsync
  obtain ⟨rd', offset, size, hopen, hsize, hend, hcases⟩ := sync_cases hsync'
  obtain ⟨rd, hnew⟩ := new_of_openReader hopen
  have hwritten := h.written rd hnew
  have hreads := readsFrom_of_verify hnew hwritten.pageSize_eq (h.endsInWal hnew)
    (h.nothingMissed hnew hnoticed) (h.frameGone hnew) hverify hopen
  have hspec := (@verifyAndSync_spec c pageSize d.files d.state now outcome (some f) rd d.base
    (fun _ => d.files) d.chain hnew hwritten.pageSize_eq hwritten.grows hwritten.pgno_le
    (h.endsInWal hnew) (h.nothingMissed hnew hnoticed) (h.frameGone hnew) rfl hsync
    fun _ => h.locked rd hnew).1
  refine ⟨rd, hnew, ?_⟩
  rcases hcases with ⟨-, -, hnone, -⟩ | ⟨f', hf, -, hhdr, hpages⟩
  · cases hnone
  · cases hf
    have hfile : l0Pages info.snapshotting pageSize d.files
        (if 0 < rd'.pageMap.1.commit then rd'.pageMap.1.commit else dbPages d.files.db pageSize)
        rd'.pageMap.1 = .ok f.pages := by
      rcases hpages with ⟨hsnap, hpages⟩ | ⟨hsnap, -, hpages⟩
      · rw [hsnap, l0Pages, if_pos rfl]
        exact hpages
      · rw [hsnap, l0Pages, if_neg Bool.false_ne_true]
        exact hpages
    have hwork : info.snapshotting = true ∨ 0 < size := by
      rcases hpages with ⟨hsnap, -⟩ | ⟨-, hpos, -⟩
      · exact .inl hsnap
      · exact .inr hpos
    refine ⟨?_, ?_, fun last hlast => ?_, fun p hlow hle hlock => ?_,
      by rw [hhdr]; exact ⟨rfl, rfl⟩, ?_⟩
    · obtain ⟨hsalt1, hsalt2⟩ := Prod.mk.inj hreads.salts_eq
      rw [← hsalt1, ← hsalt2]
      exact walSalts_of_l0Header hhdr (by rw [hsalt1, hsalt2]; exact salts_lt_of_new hnew)
    · have hlt := h.committedEnd_lt hnew
      rw [← hspec, hend] at hlt ⊢
      exact walEnd_of_l0Header hhdr hlt
    · have hmem : last ∈ rd.frames maxOffset :=
        (committed_isPrefixOf _).subset (List.mem_of_getLast? hlast)
      obtain ⟨hpos, hlock⟩ := hwritten.plain last hmem
      have hfind := hreads.find?_last hnew hwritten.grows hwritten.pgno_le hsize hwork hlast
      refine mem_l0Pages hfile hfind hpos (fun hsnap => ?_) hlock
      -- a snapshot has the size that is committed last
      have hne := commit_of_getLast? hlast
      rw [hsnap] at hreads
      rw [hreads.commit_eq hnew hwritten.pgno_le hlast, if_pos (Nat.pos_of_ne_zero hne)]
      exact hwritten.pgno_le last hmem hne
    · have hwithin : p ≤ if 0 < rd'.pageMap.1.commit then rd'.pageMap.1.commit
        else dbPages d.files.db pageSize := by
        refine hle.trans ?_
        show f.hdr.commit.toNat ≤ _
        rw [hhdr]
        exact Nat.mod_le _ _
      have hpos : 0 < p := Nat.zero_lt_of_lt hlow
      rcases hpages with ⟨-, hpages⟩ | ⟨hsnap, hwork', -⟩
      · -- a snapshot has every page
        obtain ⟨hfst, -⟩ := readPages_eq_ok hpages
        have hmem : p ∈ f.pages.map Prod.fst := by
          rw [hfst]
          exact List.mem_filter.mpr ⟨List.mem_range'_1.mpr ⟨hpos, by omega⟩, by simpa using hlock⟩
        obtain ⟨⟨p', data⟩, hdata, rfl⟩ := List.mem_map.mp hmem
        exact Option.isSome_of_eq_some (LtxFile.mem_pages_iff.mp hdata)
      · have hps := hwritten.pageSize_eq
        obtain ⟨hcpos, hgrown⟩ :=
          hreads.find?_grown hnew (hps ▸ hwritten.grows) hwritten.pgno_le hsnap hsize hwork'
        rw [hps] at hgrown
        rw [if_pos hcpos] at hwithin
        obtain ⟨start, hstart⟩ := hgrown p hlow hwithin hlock
        have hmem := mem_l0Pages hfile hstart hpos
          (fun htrue => by rw [hsnap] at htrue; cases htrue) hlock
        exact Option.isSome_of_eq_some (LtxFile.mem_pages_iff.mp hmem)
    · rw [hhdr]
      exact UInt32.toNat_ofNat_of_lt' (hwritten.pageSize_eq ▸ pageSize_lt_of_new hnew)

/-- The frame in a slot, read with its page. -/
theorem frame_eq_entry (rd : WalReader) (i : Nat) :
    beField (readAt rd.r (rd.slotStart i) rd.frameSize) 0 = (rd.entryAt i).key ∧
      (readAt rd.r (rd.slotStart i) rd.frameSize).drop walFrameHeaderSize
        = readAt rd.r ((rd.entryAt i).value + walFrameHeaderSize) rd.pageSize := by
  have hle : 0 + 4 ≤ rd.frameSize := Nat.le_add_right_of_le (by decide)
  have hhdr : 0 + 4 ≤ walFrameHeaderSize := by decide
  refine ⟨?_, ?_⟩
  · rw [entryAt, beField, beField, slotHdr, readAt_readAt _ hle, readAt_readAt _ hhdr]
  · rw [readAt, readAt, List.drop_take, List.drop_drop, frameSize, Nat.add_sub_cancel_left]
    rfl

/-- The file that a sync has written is where the WAL ends. -/
theorem Tracked.endsIn_synced (h : Tracked pageSize d) {rd : WalReader}
    (hnew : new d.files.wal = .ok rd) {f : LtxFile} (hmade : MadeOf pageSize d rd f)
    (hfold : Image.AgreeOff (lockPgno pageSize) (fold pageSize (d.chain ++ [f])) d.database) :
    EndsIn pageSize (d.synced outcome (some f)) f := by
  have hwritten := h.written rd hnew
  have hr := r_of_new hnew
  have hframe : rd.frameSize = walFrameHeaderSize + pageSize := by
    rw [frameSize, hwritten.pageSize_eq]
  have honly : ∀ {reader : WalReader}, new d.files.wal = .ok reader → reader = rd := by
    intro reader hreader
    rw [hnew] at hreader
    exact (Except.ok.inj hreader).symm
  refine ⟨hmade.salts ▸ h.salts rd hnew, ?_, ?_, ?_, ?_⟩
  · -- the end is a number of whole frames behind the header
    refine ⟨(committed (rd.frames maxOffset)).length, ?_⟩
    rw [hmade.walEnd, committedEnd, slotStart, hframe]
  · -- its last frame is the last page of the file
    intro hle frame hread _ _
    rw [hmade.walEnd] at hle hread
    have hlow : walHeaderSize < rd.committedEnd := by
      have hpos : 0 < walFrameHeaderSize := by decide
      omega
    obtain ⟨i, hlast, -, -, hend⟩ := exists_last_of_committedEnd hlow
    have hprev : rd.committedEnd - (walFrameHeaderSize + pageSize) = rd.slotStart i := by
      rw [hend, slotStart_succ, hframe, Nat.add_sub_cancel]
    obtain ⟨hkey, hpage⟩ := frame_eq_entry rd i
    rw [hr, hframe] at hkey
    rw [hr, hframe, hwritten.pageSize_eq] at hpage
    have hmem := hmade.last _ hlast
    rw [hprev] at hread
    change readAt d.files.wal _ _ = frame at hread
    rw [← hread, hkey, hpage]
    exact hmem
  · -- the fold at its end is the database
    intro reader hreader _
    rw [honly hreader, hmade.walEnd]
    refine ⟨?_, ?_⟩
    · rcases Nat.lt_or_ge walHeaderSize rd.committedEnd with hlow | hge
      · obtain ⟨i, -, hcommit, -, hend⟩ := exists_last_of_committedEnd hlow
        refine .inr ⟨i, ?_, hcommit, hend⟩
        rw [hend]
        exact slotStart_strictMono (Nat.lt_succ_self i)
      · exact .inl (Nat.le_antisymm hge (Nat.le_add_right _ _))
    · have huntil := pageMapUntil_committedEnd hnew hwritten.pgno_le
      have hstate : rd.stateAt d.base rd.committedEnd = rd.stateAt d.base maxOffset :=
        congrArg (rd.overlay d.base) huntil
      rw [LiveDb.database_eq hnew, ← hstate] at hfold
      exact hfold
  · -- a WAL with other salts is not the one it was made of
    intro reader hreader hother
    have hown : saltsAt d.files.wal 16 = f.walSalts := by rw [hmade.salts, saltsAt_of_new hnew]
    exact absurd hown hother

/-- A sync that writes nothing has found that the WAL has the salts of the newest L0 file. -/
theorem Tracked.salts_of_noop (h : Tracked pageSize d)
    (hnoticed : d.missed = true → ¬ TakenForNext pageSize d) {rd : WalReader}
    (hnew : new d.files.wal = .ok rd) {ltx : LtxFile} (hltx : d.chain.getLast? = some ltx)
    (hsync : verifyAndSync c pageSize d.files d.state d.chain now = .ok (outcome, none)) :
    saltsAt d.files.wal 16 = ltx.walSalts := by
  by_contra hother
  obtain ⟨hlow, -⟩ := (h.newest ltx hltx).other rd hnew hother
  have hwritten := h.written rd hnew
  have hspec := (@verifyAndSync_spec c pageSize d.files d.state now outcome none rd d.base
    (fun _ => d.files)
    d.chain hnew hwritten.pageSize_eq hwritten.grows hwritten.pgno_le (h.endsInWal hnew)
    (h.nothingMissed hnew hnoticed) (h.frameGone hnew) rfl hsync fun _ => h.locked rd hnew).1
  obtain ⟨info, hverify, hsync'⟩ := bind_eq_ok_iff.mp hsync
  obtain ⟨rd', offset, size, hopen, -, hend, hcases⟩ := sync_cases hsync'
  rcases hcases with ⟨hsnap, hzero, -⟩ | ⟨f, hf, -⟩
  · rw [hzero, Nat.add_zero] at hend
    -- the offset lies behind the header, so it is the end of the newest L0 file
    have hne : info.offset ≠ walHeaderSize := by
      rcases openReader_eq_ok hnew hopen with ⟨-, htop⟩ | ⟨-, hne, -⟩
      · omega
      · exact hne
    rw [hltx] at hverify
    rcases verify_cases hverify with ⟨-, hresume, -⟩ | ⟨htrue, -⟩
    · generalize info.offset = off at hresume hne
      cases hresume with
      | truncated => exact hne rfl
      | same _ hown => exact hother hown
      | restarted => exact hne rfl
    · rw [hsnap] at htrue
      cases htrue
  · cases hf

/-- **A sync keeps track**, if what was missed is noticed. -/
theorem Tracked.synced {l0 : Option LtxFile} (h : Tracked pageSize d)
    (hnoticed : d.missed = true → ¬ TakenForNext pageSize d)
    (hsync : verifyAndSync c pageSize d.files d.state d.chain now = .ok (outcome, l0)) :
    Tracked pageSize (d.synced outcome l0) := by
  have hfold := h.sync hnoticed hsync
  refine ⟨h.written, h.salts, h.length, h.locked, fun ltx hltx => ?_, fun _ => hfold⟩
  -- no file was made: the fold is the database as it was
  cases l0 with
  | none =>
      change (d.chain ++ []).getLast? = some ltx at hltx
      rw [List.append_nil] at hltx
      have hends := h.newest ltx hltx
      obtain ⟨info, -, hsync'⟩ := bind_eq_ok_iff.mp hsync
      obtain ⟨_, _, _, hopen, -⟩ := sync_cases hsync'
      obtain ⟨rd, hnew⟩ := new_of_openReader hopen
      have hown := h.salts_of_noop hnoticed hnew hltx hsync
      refine ⟨hends.seen, hends.aligned, hends.last, fun reader hreader hsame => ?_,
        fun _ _ hother => ?_⟩
      · have hsame' := hends.same reader hreader hsame
        show _ ∧ Image.AgreeOff _ (fold pageSize (d.chain ++ [])) _
        rw [List.append_nil]
        exact hsame'
      · exact absurd hown hother
  -- a file was made of the committed part
  | some f =>
      change (d.chain ++ [f]).getLast? = some ltx at hltx
      rw [List.getLast?_concat, Option.some_inj] at hltx
      subst hltx
      obtain ⟨rd, hnew, hmade⟩ := h.madeOf hnoticed hsync
      exact h.endsIn_synced hnew hmade hfold

end

end Local

end Liters
