import Liters.Writer.Session
import Liters.Writer.SnapshotLevel
import Liters.Maintenance.Images
import Liters.Maintenance.Restorable

/-! # From L0 files to uploads

The uploads of a writer are its L0 files, and whatever files come behind them. The database after a
transaction is then the fold of the L0 files up to it. A snapshot that is labelled exactly is the
full image that maintenance takes a snapshot to be. -/

namespace Liters

open WalReader Local

/-- The uploads are the L0 files, and whatever comes behind them. -/
structure Ships (pageSize : Nat) (chain : List LtxFile) (U : Uploads) : Prop where
  size : U.pageSize.toNat = pageSize
  file : ∀ i f, chain[i]? = some f → U.file (i + 1) = f

/-- The states of a history that begins with the L0 files. -/
theorem state_eq_fold {pageSize : Nat} {chain : List LtxFile} {file : Nat → LtxFile}
    (hfile : ∀ i f, chain[i]? = some f → file (i + 1) = f) {t : Nat} (ht : t ≤ chain.length) :
    (History.mk (fun t => (file t).patch) (zeroPage pageSize)).state t =
      fold pageSize (chain.take t) := by
  induction t with
  | zero => rfl
  | succ t ih =>
      have hlt : t < chain.length := ht
      have hpatch : (file (t + 1)).patch = chain[t].patch := by
        rw [hfile t _ (List.getElem?_eq_getElem hlt)]
      rw [List.take_succ_eq_append_getElem hlt, fold_concat, ← ih hlt.le, History.state]
      dsimp only
      rw [hpatch]

/-- The state shipped is what the chain's prefix folds to. -/
theorem Ships.state_eq {pageSize : Nat} {chain : List LtxFile} {U : Uploads}
    (h : Ships pageSize chain U) {t : Nat} (ht : t ≤ chain.length) :
    U.state t = fold pageSize (chain.take t) := by
  have hzero : U.zero = zeroPage pageSize := by rw [Uploads.zero, h.size, zeroPage]
  rw [Uploads.state, Uploads.history, hzero]
  exact state_eq_fold h.file ht

/-- The lock page is that of the page size. -/
theorem Ships.lock_eq {pageSize : Nat} {chain : List LtxFile} {U : Uploads}
    (h : Ships pageSize chain U) :
    U.lock = lockPgno pageSize := by
  rw [Uploads.lock, h.size]

/-! ## Snapshots -/

/-- The page size of a snapshot is that of the database. -/
theorem pageSize_of_snapshotWith {c : Codec} {pageSize txid : Nat} {live : Nat → Files}
    {state : SyncState} {chain chain' : List LtxFile} {upload put : Except SyncError Unit}
    {now now' : Int64} {file : LtxFile}
    (h : snapshotWith c pageSize live state chain upload put now now' =
      .ok (some (txid, file), chain')) :
    file.hdr.pageSize = UInt32.ofNat pageSize := by
  unfold snapshotWith at h
  obtain ⟨⟨outcome, l0⟩, -, h⟩ := bind_eq_ok_iff.mp h
  obtain ⟨-, -, h⟩ := bind_eq_ok_iff.mp h
  dsimp only at h
  split at h
  · cases h
  · obtain ⟨file', hfile, h⟩ := bind_eq_ok_iff.mp h
    obtain ⟨-, -, h⟩ := bind_eq_ok_iff.mp h
    cases h
    exact (snapshotFile_complete hfile).2.2.1

/-- **A snapshot that is labelled exactly** is a full image of the state that the uploads lead
to. -/
theorem fullImage_of_labelled {pageSize txid : Nat} {chain : List LtxFile} {U : Uploads}
    {file : LtxFile} (hships : Ships pageSize chain U) (hchain : L0Chain pageSize chain)
    (hlabel : LabelledExactly pageSize txid file chain)
    (hsize : file.hdr.pageSize = UInt32.ofNat pageSize) :
    U.FullImage txid file := by
  have hpos : txid = chain.length := hlabel.pos.symm.trans hchain.posOf_eq
  have hstate : U.state txid = fold pageSize chain := by
    rw [hpos, hships.state_eq (Nat.le_refl _), List.take_length]
  have hcommit : file.patch.commit = (U.state txid).size := by
    rw [hstate]
    exact hlabel.commit
  refine ⟨by rw [hlabel.minTxid]; rfl, hlabel.maxTxid, ?_, hcommit, fun p hp hle hlock => ?_⟩
  · rw [hsize, ← hships.size]
    exact UInt32.ofNat_toNat
  · have hle' : p ≤ file.hdr.commit.toNat := hle.trans hcommit.ge
    rw [hstate]
    exact hlabel.page p hp hle' (hships.lock_eq ▸ hlock)

/-- **What `snapshot_with` writes can be the snapshot of a bucket**, where it is labelled exactly:
there is a source of full images that has it. -/
theorem exists_source_of_snapshotWith {c : Codec} {pageSize txid : Nat} {live : Nat → Files}
    {state : SyncState} {chain chain' : List LtxFile} {upload put : Except SyncError Unit}
    {now now' : Int64} {file : LtxFile}
    {rd : WalReader} {base : Image Bytes} {U : Uploads} (hnew : new (live 0).wal = .ok rd)
    (hwritten : WrittenOver rd pageSize base) (hends : EndsInWal rd base chain)
    (hlocked : ∀ outcome l0, verifyAndSync c pageSize (live 0) state chain now = .ok (outcome, l0) →
      Locked rd base outcome.newWalSize live)
    (hmissed : NothingMissed rd base state chain) (hgone : FrameGone rd chain)
    (h : snapshotWith c pageSize live state chain upload put now now' =
      .ok (some (txid, file), chain'))
    (hships : Ships pageSize chain' U) (hchain : L0Chain pageSize chain') :
    ∃ source : SnapshotSource U, source.file txid = file := by
  have hlabel := snapshotWith_labelledExactly hnew hwritten hends hlocked hmissed hgone h
  exact (fullImage_of_labelled hships hchain hlabel (pageSize_of_snapshotWith h)).exists_source

/-! ## L0 files can be continued -/

/-- The header of another transaction. -/
def Header.renumbered (hdr : Header) (txid : UInt64) : Header :=
  { hdr with minTxid := txid, maxTxid := txid }

/-- A header stays valid under another TXID. -/
theorem Header.renumbered_validate {hdr : Header} {txid : UInt64} (hn : hdr.noChecksum)
    (hok : hdr.PlainOk) (hzero : txid ≠ 0) : (hdr.renumbered txid).validate = .ok () := by
  have hn' : (hdr.renumbered txid).noChecksum := hn
  rw [Header.validate_eq_ok_iff hn']
  exact ⟨hok.flags, hok.pageSize, hzero, hzero, UInt64.le_refl _, hok.walOffset, hok.walSize,
    hok.salt, hok.size, hok.preApply⟩

/-- Its pages stay accepted. -/
theorem LtxFile.renumbered_pagesOk (f : LtxFile) {txid : UInt64} (hone : txid ≠ 1) :
    PagesOk (f.hdr.renumbered txid) 0 f.pages := by
  have hsnap : (f.hdr.renumbered txid).isSnapshot = false := by
    simpa [Header.isSnapshot, Header.renumbered] using hone
  exact pagesOk_of_ascending hsnap f.pages_ascending (fun p hp => LtxFile.mem_pages hp)
    fun p hp => (LtxFile.mem_pages hp).1

/-- The same pages in a file of another transaction than the first. -/
def LtxFile.renumbered (f : LtxFile) (txid : UInt64) (hzero : txid ≠ 0) (hone : txid ≠ 1) :
    LtxFile where
  hdr := f.hdr.renumbered txid
  pages := f.pages
  valid := Header.renumbered_validate f.noChecksum f.plainOk hzero
  pagesOk := f.renumbered_pagesOk hone
  noChecksum := f.noChecksum
  commit_ne_zero := f.commit_ne_zero

/-- The L0 files, and behind them the newest one again and again. -/
def continued (newest : LtxFile) (chain : List LtxFile) (t : Nat) : LtxFile :=
  match chain[t - 1]? with
  | some f => f
  | none => if h : txidOf t = 1 then newest else newest.renumbered (txidOf t) (txidOf_ne_zero t) h

section
variable {pageSize : Nat} {chain : List LtxFile} {newest : LtxFile}

/-- Within the chain the continuation is the chain. -/
theorem continued_of_getElem? {i : Nat} {f : LtxFile} (h : chain[i]? = some f) :
    continued newest chain (i + 1) = f := by
  rw [continued, Nat.add_sub_cancel, h]

/-- Behind the L0 files. -/
theorem continued_of_le {t : Nat} (hlow : 2 ≤ t) (hlt : t < 2 ^ 64) (hle : chain.length < t) :
    ∃ (hzero : txidOf t ≠ 0) (hone : txidOf t ≠ 1),
      continued newest chain t = newest.renumbered (txidOf t) hzero hone := by
  have hnone : chain[t - 1]? = none := List.getElem?_eq_none (by omega)
  have hone : txidOf t ≠ 1 := by
    intro heq
    have hnat := toNat_txidOf (t := t) (by omega) hlt
    rw [heq] at hnat
    have : (1 : UInt64).toNat = 1 := rfl
    omega
  refine ⟨txidOf_ne_zero t, hone, ?_⟩
  rw [continued, hnone]
  exact dif_neg hone

/-- A patch of a list covers what it adds to the size before it. -/
theorem covers_of_coversChain {skip size t : Nat} {ds : List (Patch Bytes)}
    (h : CoversChain skip size ds) {d : Patch Bytes} (hd : ds[t]? = some d) :
    d.Covers skip (lastCommit size (ds.take t)) := by
  have hlt : t < ds.length := (List.getElem?_eq_some_iff.mp hd).1
  have hsplit : ds = ds.take t ++ d :: ds.drop (t + 1) := by
    rw [← (List.getElem?_eq_some_iff.mp hd).2, ← List.drop_eq_getElem_cons hlt,
      List.take_append_drop]
  rw [hsplit, coversChain_append] at h
  exact h.2.1

variable (h : L0Chain pageSize chain) (hnewest : chain.getLast? = some newest)
include h hnewest

/-- A chain with a newest file is not empty. -/
theorem length_pos_of_newest : 1 ≤ chain.length := by
  cases chain with
  | nil => cases hnewest
  | cons f chain => exact Nat.le_add_left 1 _

/-- The files of the continuation are numbered in order. -/
theorem txid_continued {t : Nat} (hpos : 1 ≤ t) (hlt : t < 2 ^ 64 - 1) :
    (continued newest chain t).hdr.minTxid.toNat = t ∧
    (continued newest chain t).hdr.maxTxid.toNat = t := by
  have hne := length_pos_of_newest h hnewest
  rcases Nat.lt_or_ge chain.length t with hgt | hle
  · obtain ⟨_, _, heq⟩ := @continued_of_le chain newest _ (by omega) (by omega) hgt
    rw [heq]
    exact ⟨toNat_txidOf hpos (by omega), toNat_txidOf hpos (by omega)⟩
  · obtain ⟨i, rfl⟩ : ∃ i, t = i + 1 := ⟨t - 1, by omega⟩
    have hget := List.getElem?_eq_getElem (l := chain) (i := i) (by omega)
    rw [continued_of_getElem? hget]
    exact h.txid i _ hget

/-- They have one page size. -/
theorem pageSize_continued {t : Nat} (hpos : 1 ≤ t) (hlt : t < 2 ^ 64 - 1) :
    (continued newest chain t).hdr.pageSize = newest.hdr.pageSize := by
  have hne := length_pos_of_newest h hnewest
  rcases Nat.lt_or_ge chain.length t with hgt | hle
  · obtain ⟨_, _, heq⟩ := @continued_of_le chain newest _ (by omega) (by omega) hgt
    rw [heq]
    rfl
  · obtain ⟨i, rfl⟩ : ∃ i, t = i + 1 := ⟨t - 1, by omega⟩
    have hget := List.getElem?_eq_getElem (l := chain) (i := i) (by omega)
    rw [continued_of_getElem? hget, ← UInt32.toNat_inj,
      h.size newest (List.mem_of_getLast? hnewest)]
    exact h.size _ (List.getElem_mem _)

/-- Behind the L0 files the size stays. -/
theorem commit_continued {t : Nat} (hlt : t < 2 ^ 64) (hge : chain.length ≤ t) :
    (continued newest chain t).patch.commit = newest.patch.commit := by
  have hne := length_pos_of_newest h hnewest
  rcases Nat.eq_or_lt_of_le hge with rfl | hgt
  · have hlast : chain[chain.length - 1]? = some newest := by
      rw [← hnewest, List.getLast?_eq_getElem?]
    rw [continued, hlast]
  · obtain ⟨_, _, heq⟩ := @continued_of_le chain newest _ (by omega) hlt hgt
    rw [heq]
    rfl

/-- Their history grows as the chain's does. -/
theorem growing_continued {n : Nat} (hn : n < 2 ^ 64 - 1) :
    (History.mk (fun t => (continued newest chain t).patch) (zeroPage pageSize)).Growing
      (lockPgno pageSize) n := by
  intro t ht
  have hne := length_pos_of_newest h hnewest
  rcases Nat.lt_or_ge t chain.length with hin | hge
  · -- an L0 file
    have hget := List.getElem?_eq_getElem hin
    have hpatch : (patches chain)[t]? = some chain[t].patch := by
      rw [patches, List.getElem?_map, hget, Option.map_some]
    have hcov := covers_of_coversChain h.covers hpatch
    have hstate : (fold pageSize (chain.take t)).size = lastCommit 0 (patches (chain.take t)) :=
      Image.applyAll_size (⟨0, fun _ => zeroPage pageSize⟩ : Image Bytes) (patches (chain.take t))
    have htake : (patches chain).take t = patches (chain.take t) := by
      rw [patches, patches, List.map_take]
    rw [state_eq_fold (fun i f hf => continued_of_getElem? hf) hin.le, hstate, ← htake]
    dsimp only
    rw [continued_of_getElem? hget]
    exact hcov
  · -- the size stays
    rw [History.state_size (by omega)]
    dsimp only
    rw [commit_continued h hnewest (by omega) hge]
    intro p hlow hle
    rw [commit_continued h hnewest (by omega) (by omega)] at hle
    exact absurd hle (Nat.not_le.mpr hlow)

/-- **L0 files are uploads**: there is a writer that uploads them. -/
theorem exists_ships_of_l0Chain : ∃ U, Ships pageSize chain U := by
  have hps := h.size newest (List.mem_of_getLast? hnewest)
  subst hps
  refine ⟨⟨newest.hdr.pageSize, continued newest chain, fun t => txid_continued h hnewest,
    fun t => pageSize_continued h hnewest, fun n => growing_continued h hnewest⟩, rfl, ?_⟩
  exact fun i f hf => continued_of_getElem? hf

end

end Liters
