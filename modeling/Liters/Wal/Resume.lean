import Liters.Wal.Committed
import Liters.Foundation.PageImage
import Liters.Ltx.Types

/-! # Resuming in the WAL

A reader that resumes behind a commit frame trusts the checksum stored in it, and finds the frames
that a reader from the top finds there. The page maps of two consecutive parts compose to the page
map of the whole: a page that the first part dropped because the database had shrunk comes again
when it grows. The lock page is the exception, since a growing database does not carry it. -/

namespace Liters

open LogEntry

/-! ## Composing page maps -/

namespace PageMap

/-- The page map of a part and the one of the part behind it: newer entries win and pages beyond the
final size are dropped. An empty second part changes nothing. -/
def andThen (pm pm' : PageMap) : PageMap :=
  if pm'.pages.entries = [] then pm
  else
    { pages := (pm.pages.insertAll pm'.pages).filterKeys fun pgno => pgno ≤ pm'.commit
      maxOffset := pm'.maxOffset
      commit := pm'.commit }

/-- Equal size, equal end and equal pages, the page `skip` aside. -/
structure AgreeOff (skip : Nat) (pm pm' : PageMap) : Prop where
  commit : pm.commit = pm'.commit
  maxOffset : pm.maxOffset = pm'.maxOffset
  pages : ∀ pgno, pgno ≠ skip → pm.pages.find? pgno = pm'.pages.find? pgno

end PageMap

namespace WalReader

variable {rd : WalReader}

/-- Where the last part commits something, its map is not empty. -/
theorem IsPageMap.entries_ne_nil {frameSize : Nat} {log : List LogEntry} {pm : PageMap}
    (h : IsPageMap frameSize log pm) (hpgno : ∀ e ∈ log, e.commit ≠ 0 → e.key ≤ e.commit)
    {last : LogEntry} (hlast : (committed log).getLast? = some last) : pm.pages.entries ≠ [] := by
  have hmem : last ∈ log := (committed_isPrefixOf log).subset (List.mem_of_getLast? hlast)
  obtain ⟨front, hfront⟩ := List.getLast?_eq_some_iff.mp hlast
  have hfind : pm.pages.find? last.key = some last.value := by
    rw [h.pages hlast, if_pos (hpgno last hmem (commit_of_getLast? hlast)), hfront, latest_concat,
      if_pos rfl]
  exact List.ne_nil_of_mem (SortedMap.mem_entries_iff.mpr hfind)

/-- Two consecutive parts, the first one ending with a commit, compose to the whole: in the size and
the end, and at every page that is not left out of the growth or that does not occur in the first
part. -/
theorem IsPageMap.andThen {frameSize skip : Nat} {front b : List LogEntry} {x : LogEntry}
    {pm₁ pm₂ pm : PageMap} (h₁ : IsPageMap frameSize (front ++ [x]) pm₁)
    (h₂ : IsPageMap frameSize b pm₂) (h : IsPageMap frameSize (front ++ [x] ++ b) pm)
    (hx : x.commit ≠ 0)
    (hpgno : ∀ e ∈ b, e.commit ≠ 0 → e.key ≤ e.commit) (hgrow : Grows skip (front ++ [x] ++ b)) :
    (pm₁.andThen pm₂).commit = pm.commit ∧ (pm₁.andThen pm₂).maxOffset = pm.maxOffset ∧
      ∀ pgno, pgno ≠ skip ∨ pgno ∉ (front ++ [x]).map key →
        (pm₁.andThen pm₂).pages.find? pgno = pm.pages.find? pgno := by
  have hcom₁ : committed (front ++ [x]) = front ++ [x] := committed_concat_of_commit hx
  have hlast₁ : (committed (front ++ [x])).getLast? = some x := by rw [hcom₁, List.getLast?_concat]
  have hcom : committed (front ++ [x] ++ b) = front ++ [x] ++ committed b := committed_append hcom₁
  cases hlast : (committed b).getLast? with
  | none =>
      -- nothing is committed in the second part
      rw [List.getLast?_eq_none_iff] at hlast
      have hempty : pm₁.andThen pm₂ = pm₁ := by
        rw [PageMap.andThen, h₂.none hlast]
        exact if_pos rfl
      have hsame : pm₁ = pm := by
        refine IsPageMap.unique (h₁.of_committed_eq ?_) h
        rw [hcom, hlast, List.append_nil, hcom₁]
      rw [hempty, hsame]
      exact ⟨rfl, rfl, fun _ _ => rfl⟩
  | some last =>
      have hlast' : (committed (front ++ [x] ++ b)).getLast? = some last := by
        rw [hcom, List.getLast?_append, hlast, Option.some_or]
      rw [PageMap.andThen, if_neg (h₂.entries_ne_nil hpgno hlast)]
      refine ⟨(h₂.commit hlast).trans (h.commit hlast').symm,
        (h₂.maxOffset hlast).trans (h.maxOffset hlast').symm, fun pgno hp => ?_⟩
      show ((pm₁.pages.insertAll pm₂.pages).filterKeys _).find? pgno = _
      rw [SortedMap.find?_filterKeys, SortedMap.find?_insertAll, h₂.commit hlast, h.pages hlast',
        h₂.pages hlast, h₁.pages hlast₁, hcom, hcom₁, latest_append (front ++ [x]) (committed b)]
      simp only [decide_eq_true_eq]
      by_cases hle : pgno ≤ last.commit
      · rw [if_pos hle, if_pos hle, if_pos hle]
        cases hnew : latest (committed b) pgno with
        | some v => rfl
        | none =>
            rw [Option.none_or, Option.none_or]
            by_cases hlow : pgno ≤ x.commit
            · rw [if_pos hlow]
            · -- the database has grown over the page, which is then carried by the second part
              rw [if_neg hlow]
              rcases hp with hp | hp
              · have hmem := hgrow.mem (a := front) (b := b) (by rw [List.append_assoc]; rfl)
                  hx hlast
                  (Nat.not_le.mp hlow) hle hp
                exact absurd hmem (latest_eq_none_iff.mp hnew)
              · exact (latest_eq_none_iff.mpr hp).symm
      · rw [if_neg hle, if_neg hle]

/-! ## Resuming -/

/-- Up to the end of a frame of the chain, the WAL has the frames up to it. -/
theorem chainLength_slotStart {endOffset i : Nat} (hi : i < rd.chainLength endOffset) :
    rd.chainLength (rd.slotStart (i + 1)) = i + 1 := by
  refine chainLength_eq (fun j hj => ⟨?_, slotStart_strictMono hj⟩) fun h =>
    absurd h.2 (Nat.lt_irrefl _)
  exact (chain_chainLength endOffset j (by omega)).1

/-- Resuming behind a linked frame leads to the slot behind it. -/
theorem withOffset_slotStart {wal : Bytes} (hnew : new wal = .ok rd) {i : Nat}
    (hlinked : rd.Linked i) :
    withOffset wal (rd.slotStart (i + 1)) rd.salt1 rd.salt2 = .ok (rd.atSlot (i + 1)) := by
  have hpos : 0 < rd.frameSize := frameSize_pos
  -- the offset is behind i + 1 frames
  have hsub : rd.slotStart (i + 1) - walHeaderSize = (i + 1) * rd.frameSize :=
    Nat.add_sub_cancel_left _ _
  have hlow : ¬ rd.slotStart (i + 1) ≤ walHeaderSize := by
    have : 0 < (i + 1) * rd.frameSize := Nat.mul_pos (Nat.succ_pos i) hpos
    rw [slotStart]
    omega
  have hframe : (i + 1) * rd.frameSize / rd.frameSize - 1 = i := by
    rw [Nat.mul_div_cancel _ hpos, Nat.add_sub_cancel]
  obtain ⟨hlen, hlen'⟩ := (complete_iff i).mp hlinked.complete
  -- the frame in front of it is read without its checksum, which is taken from its header
  have hread : ({ rd with frameN := i } : WalReader).readFrameInner false
      = (some ⟨beField (rd.slotHdr i) 0, beField (rd.slotHdr i) 4⟩,
        { rd with chksum := storedChecksum (rd.slotHdr i) 16, frameN := i + 1 }) := by
    have hhdr : readAt rd.r ({ rd with frameN := i } : WalReader).nextStart walFrameHeaderSize =
        rd.slotHdr i :=
      rfl
    have hdata : readAt rd.r (({ rd with frameN := i } : WalReader).nextStart + walFrameHeaderSize)
        rd.pageSize
        = rd.slotData i := rfl
    unfold readFrameInner
    dsimp only
    rw [hhdr, hdata, if_neg (not_not.mpr hlen), if_neg (not_not.mpr hlen'),
      if_neg (by rw [hlinked.salt1, hlinked.salt2]; simp), if_neg (by simp)]
    rfl
  unfold withOffset
  rw [require_pos hlow, ok_bind, hnew, ok_bind, hsub, Nat.mul_mod_left, require_pos rfl, ok_bind,
    hframe]
  dsimp only
  rw [hread]
  dsimp only
  rw [hlinked.checksum]
  rfl

/-- A part of the WAL between two of its commits, or behind the last cut: where a commit frame of
the chain lies, how the frames split there. -/
theorem frames_split {endOffset i : Nat} (hi : i < rd.chainLength endOffset) :
    rd.frames endOffset = rd.entries 0 i ++ [rd.entryAt i]
      ++ rd.entries (i + 1) (rd.chainLength endOffset - (i + 1)) := by
  have hlen : rd.chainLength endOffset = i + 1 + (rd.chainLength endOffset - (i + 1)) := by omega
  have hone : rd.entries 0 (i + 1) = rd.entries 0 i ++ [rd.entryAt i] := by
    rw [entries_append]
    rw [Nat.zero_add]
    rfl
  rw [frames, hlen, entries_append, hone, Nat.zero_add, ← hlen]

/-- Up to the end of a commit frame and from there on: the two page maps compose to the one of the
whole. -/
theorem andThen_atSlot {wal : Bytes} (hnew : new wal = .ok rd) {endOffset skip i : Nat}
    (hgrow : Grows skip (rd.frames endOffset))
    (hpgno : ∀ e ∈ rd.frames endOffset, e.commit ≠ 0 → e.key ≤ e.commit)
    (hi : i < rd.chainLength endOffset) (hcommit : (rd.entryAt i).commit ≠ 0) :
    ((rd.pageMapUntil (rd.slotStart (i + 1))).1.andThen
      ((rd.atSlot (i + 1)).pageMapUntil endOffset).1).commit
        = (rd.pageMapUntil endOffset).1.commit ∧
      ((rd.pageMapUntil (rd.slotStart (i + 1))).1.andThen
          ((rd.atSlot (i + 1)).pageMapUntil endOffset).1).maxOffset
        = (rd.pageMapUntil endOffset).1.maxOffset ∧
      ∀ pgno, pgno ≠ skip ∨ pgno ∉ (rd.frames endOffset).map key →
        ((rd.pageMapUntil (rd.slotStart (i + 1))).1.andThen
            ((rd.atSlot (i + 1)).pageMapUntil endOffset).1).pages.find? pgno
          = (rd.pageMapUntil endOffset).1.pages.find? pgno := by
  have hsplit := frames_split hi
  have htop := atSlot_zero_of_new hnew
  -- the frames to the resume point and those behind it, each with its page map
  have hfirst : rd.frames (rd.slotStart (i + 1)) = rd.entries 0 i ++ [rd.entryAt i] := by
    have hlen : i < rd.chainLength (rd.slotStart (i + 1)) := by
      rw [chainLength_slotStart hi]
      exact Nat.lt_succ_self i
    have := frames_split hlen
    rw [chainLength_slotStart hi, Nat.sub_self] at this
    rw [this]
    exact List.append_nil _
  have hwhole := pageMapUntil_atSlot (Nat.zero_le (rd.chainLength endOffset)) hpgno
  have h₁ := pageMapUntil_atSlot (Nat.zero_le (rd.chainLength (rd.slotStart (i + 1))))
    (show ∀ e ∈ rd.frames (rd.slotStart (i + 1)), e.commit ≠ 0 → e.key ≤ e.commit by
      intro e he
      refine hpgno e ?_
      rw [hfirst] at he
      rw [hsplit]
      exact List.mem_append_left _ he)
  have hpgno₂ : ∀ e ∈ rd.entries (i + 1) (rd.chainLength endOffset - (i + 1)),
      e.commit ≠ 0 → e.key ≤ e.commit := by
    intro e he
    refine hpgno e ?_
    rw [hsplit]
    exact List.mem_append_right _ he
  have h₂ := pageMapUntil_atSlot (Nat.succ_le_of_lt hi) hpgno₂
  rw [htop] at hwhole h₁
  have h₁' : IsPageMap rd.frameSize (rd.entries 0 i ++ [rd.entryAt i])
      (rd.pageMapUntil (rd.slotStart (i + 1))).1 := hfirst ▸ h₁
  have hwhole' : IsPageMap rd.frameSize (rd.entries 0 i ++ [rd.entryAt i]
      ++ rd.entries (i + 1) (rd.chainLength endOffset - (i + 1))) (rd.pageMapUntil endOffset).1 :=
    hsplit ▸ hwhole
  -- the second map over the first is the map of the whole
  obtain ⟨hc, hm, hp⟩ := h₁'.andThen h₂ hwhole' hcommit hpgno₂ (hsplit ▸ hgrow)
  refine ⟨hc, hm, fun pgno hor => hp pgno (hor.imp_right fun hnot hmem => hnot ?_)⟩
  rw [hsplit, List.map_append]
  exact List.mem_append_left _ hmem

/-! ## Any number of parts -/

/-- The L0 file that `sync` writes for a page map: the pages in the WAL behind the frame headers. -/
def l0Patch (wal : Bytes) (pageSize : Nat) (pm : PageMap) : Patch Bytes where
  commit := pm.commit
  page? pgno := (pm.pages.find? pgno).map fun offset =>
    readAt wal (offset + walFrameHeaderSize) pageSize

/-- A page the map lacks is not in the patch. -/
theorem l0Patch_page?_eq_none {wal : Bytes} {pageSize pgno : Nat} {pm : PageMap}
    (h : pm.pages.find? pgno = none) : (l0Patch wal pageSize pm).page? pgno = none := by
  simp only [l0Patch, h, Option.map_none]

/-- The L0 files of some parts; a part without a commit makes none. -/
def l0Files (wal : Bytes) (pageSize : Nat) (pms : List PageMap) : List (Patch Bytes) :=
  (pms.filter fun pm => pm.pages.entries ≠ []).map (l0Patch wal pageSize)

/-- The page maps of consecutive parts: a reader up to the first cut, one that resumes there up to
the next one, and so on up to the end. -/
def partMaps (wal : Bytes) (salt1 salt2 endOffset : Nat) :
    WalReader → List Nat → Except WalError (List PageMap)
  | rd, [] => .ok [(rd.pageMapUntil endOffset).1]
  | rd, k :: ks => do
      let rd' ← withOffset wal k salt1 salt2
      let pms ← partMaps wal salt1 salt2 endOffset rd' ks
      return (rd.pageMapUntil k).1 :: pms

/-- The last cut: the parts up to it, and the one behind it. -/
theorem partMaps_concat (wal : Bytes) (salt1 salt2 endOffset : Nat) (rd : WalReader) (ks : List Nat)
    (k : Nat) :
    partMaps wal salt1 salt2 endOffset rd (ks ++ [k]) = (do
      let pms ← partMaps wal salt1 salt2 k rd ks
      let rd' ← withOffset wal k salt1 salt2
      return pms ++ [(rd'.pageMapUntil endOffset).1]) := by
  induction ks generalizing rd with
  | nil => rfl
  | cons k' ks ih =>
      rw [List.cons_append, partMaps, partMaps]
      cases withOffset wal k' salt1 salt2 with
      | error e => rfl
      | ok rd' =>
          rw [ok_bind, ok_bind, ih]
          cases partMaps wal salt1 salt2 k rd' ks with
          | error e => rfl
          | ok pms =>
              cases withOffset wal k salt1 salt2 with
              | error e => rfl
              | ok rd'' => rfl

/-- The pages of a page map lie within its size. -/
theorem IsPageMap.find?_eq_none {frameSize : Nat} {log : List LogEntry} {pm : PageMap}
    (h : IsPageMap frameSize log pm) {pgno : Nat} (hp : pm.commit < pgno) :
    pm.pages.find? pgno = Option.none := by
  cases hlast : (committed log).getLast? with
  | none =>
      rw [h.none (List.getLast?_eq_none_iff.mp hlast)]
      rfl
  | some last =>
      rw [h.pages hlast, if_neg]
      rw [← h.commit hlast]
      omega

/-- A page map without pages is the empty one. -/
theorem IsPageMap.eq_default {frameSize : Nat} {log : List LogEntry} {pm : PageMap}
    (h : IsPageMap frameSize log pm) (hpgno : ∀ e ∈ log, e.commit ≠ 0 → e.key ≤ e.commit)
    (hempty : pm.pages.entries = []) : pm = {} := by
  cases hlast : (committed log).getLast? with
  | none => exact h.none (List.getLast?_eq_none_iff.mp hlast)
  | some last => exact absurd hempty (h.entries_ne_nil hpgno hlast)

/-- The L0 file of a part carries every page by which the database has grown since the commit before
it. -/
theorem IsPageMap.covers {frameSize skip : Nat} {front b : List LogEntry} {x : LogEntry}
    {pm : PageMap} (h : IsPageMap frameSize b pm) (hx : x.commit ≠ 0)
    (hgrow : Grows skip (front ++ [x] ++ b)) (wal : Bytes)
    (pageSize : Nat) : (l0Patch wal pageSize pm).Covers skip x.commit := by
  intro pgno hlow hle hskip
  have hle' : pgno ≤ pm.commit := hle
  cases hlast : (committed b).getLast? with
  | none =>
      rw [h.none (List.getLast?_eq_none_iff.mp hlast)] at hle'
      have : pgno ≤ 0 := hle'
      omega
  | some last =>
      rw [h.commit hlast] at hle'
      have hmem := hgrow.mem (a := front) (b := b) (by rw [List.append_assoc]; rfl) hx hlast hlow
        hle' hskip
      have hsome : (latest (committed b) pgno).isSome := by
        rw [Option.isSome_iff_ne_none]
        exact fun hnone => latest_eq_none_iff.mp hnone hmem
      simp only [l0Patch, Option.isSome_map]
      rw [h.pages hlast, if_pos hle']
      exact hsome

/-- Folding the L0 files of the parts of a WAL that is cut at any commits gives the size and the
pages of one L0 file over the whole, the page left out of the growth aside. -/
theorem partMaps_fold {wal : Bytes} (hnew : new wal = .ok rd) {endOffset skip : Nat}
    (hgrow : Grows skip (rd.frames endOffset))
    (hpgno : ∀ e ∈ rd.frames endOffset, e.commit ≠ 0 → e.key ≤ e.commit) {cuts : List Nat}
    (hcuts : cuts.Pairwise (· < ·))
    (hcommit : ∀ i ∈ cuts, i < rd.chainLength endOffset ∧ (rd.entryAt i).commit ≠ 0)
    (pageSize : Nat) :
    ∃ pms, partMaps wal rd.salt1 rd.salt2 endOffset rd (cuts.map fun i => rd.slotStart (i + 1)) =
      .ok pms ∧
      (mergeAll (l0Files wal pageSize pms)).commit = (rd.pageMapUntil endOffset).1.commit ∧
      ∀ pgno, 0 < pgno → pgno ≠ skip → (mergeAll (l0Files wal pageSize pms)).page? pgno
        = (l0Patch wal pageSize (rd.pageMapUntil endOffset).1).page? pgno := by
  -- along the cuts, the last one first
  induction cuts using List.reverseRecOn generalizing endOffset with
  | nil =>
      have hpm := pageMapUntil_atSlot (Nat.zero_le (rd.chainLength endOffset)) hpgno
      rw [atSlot_zero_of_new hnew] at hpm
      refine ⟨[(rd.pageMapUntil endOffset).1], rfl, ?_⟩
      by_cases hempty : (rd.pageMapUntil endOffset).1.pages.entries = []
      · have hfiles : l0Files wal pageSize [(rd.pageMapUntil endOffset).1] = [] := by
          simp [l0Files, hempty]
        rw [hfiles, hpm.eq_default hpgno hempty]
        exact ⟨rfl, fun pgno hpos _ => if_neg (Nat.not_le.mpr hpos)⟩
      · have hfiles : l0Files wal pageSize [(rd.pageMapUntil endOffset).1]
            = [l0Patch wal pageSize (rd.pageMapUntil endOffset).1] := by simp [l0Files, hempty]
        rw [hfiles]
        refine ⟨rfl, fun pgno hpos _ => ?_⟩
        by_cases hle : pgno ≤ (rd.pageMapUntil endOffset).1.commit
        · have hle' : pgno ≤ lastCommit 0 [l0Patch wal pageSize (rd.pageMapUntil endOffset).1] :=
            hle
          simp [mergeAll, newest, if_pos hle']
        · have hle' : ¬ pgno ≤ lastCommit 0 [l0Patch wal pageSize (rd.pageMapUntil endOffset).1] :=
            hle
          rw [l0Patch_page?_eq_none (hpm.find?_eq_none (Nat.not_le.mp hle))]
          exact if_neg hle'
  | append_singleton cuts i ih =>
      obtain ⟨hi, hicommit⟩ := hcommit i (by simp)
      have hsplit := frames_split hi
      have hcuts' := List.pairwise_append.mp hcuts
      have hfirst : rd.frames (rd.slotStart (i + 1)) = rd.entries 0 i ++ [rd.entryAt i] := by
        rw [frames, chainLength_slotStart hi, entries_append, Nat.zero_add]
        rfl
      have hgrow' : Grows skip (rd.frames (rd.slotStart (i + 1))) := by
        rw [hfirst]
        rw [hsplit] at hgrow
        exact hgrow.of_append
      have hpgno' : ∀ e ∈ rd.frames (rd.slotStart (i + 1)), e.commit ≠ 0 → e.key ≤ e.commit := by
        intro e he
        refine hpgno e ?_
        rw [hsplit, ← hfirst]
        exact List.mem_append_left _ he
      have hcommit' : ∀ j ∈ cuts, j < rd.chainLength (rd.slotStart (i + 1)) ∧
          (rd.entryAt j).commit ≠ 0 := by
        intro j hj
        rw [chainLength_slotStart hi]
        have hlt := hcuts'.2.2 j hj i (List.mem_singleton_self _)
        exact ⟨by omega, (hcommit j (List.mem_append_left _ hj)).2⟩
      obtain ⟨pms, hparts, hc, hp⟩ := ih hgrow' hpgno' hcuts'.1 hcommit'
      have hpgno₂ : ∀ e ∈ rd.entries (i + 1) (rd.chainLength endOffset - (i + 1)),
          e.commit ≠ 0 → e.key ≤ e.commit := by
        intro e he
        refine hpgno e ?_
        rw [hsplit]
        exact List.mem_append_right _ he
      have h₂ := pageMapUntil_atSlot (Nat.succ_le_of_lt hi) hpgno₂
      obtain ⟨hwc, -, hwp⟩ := andThen_atSlot hnew hgrow hpgno hi hicommit
      have hresume := withOffset_slotStart hnew (chain_chainLength endOffset i hi).1
      refine ⟨pms ++ [((rd.atSlot (i + 1)).pageMapUntil endOffset).1], ?_, ?_⟩
      · rw [List.map_append, List.map_singleton, partMaps_concat, hparts, ok_bind, hresume, ok_bind]
        rfl
      generalize (rd.pageMapUntil endOffset).1 = whole at hwc hwp ⊢
      have h₁ := pageMapUntil_atSlot (Nat.zero_le (rd.chainLength (rd.slotStart (i + 1)))) hpgno'
      rw [atSlot_zero_of_new hnew] at h₁
      have h₁c : (rd.pageMapUntil (rd.slotStart (i + 1))).1.commit = (rd.entryAt i).commit := by
        refine h₁.commit ?_
        show (committed (rd.frames (rd.slotStart (i + 1)))).getLast? = _
        rw [hfirst, committed_concat_of_commit hicommit, List.getLast?_concat]
      generalize (rd.pageMapUntil (rd.slotStart (i + 1))).1 = pm₁ at hwc hwp hc hp h₁c
      have hcov := h₂.covers hicommit (hsplit ▸ hgrow) wal pageSize
      generalize ((rd.atSlot (i + 1)).pageMapUntil endOffset).1 = pm₂ at hwc hwp h₂ hcov ⊢
      by_cases hempty : pm₂.pages.entries = []
      · -- nothing behind the last cut
        have hfiles : l0Files wal pageSize (pms ++ [pm₂]) = l0Files wal pageSize pms := by
          simp [l0Files, hempty]
        rw [PageMap.andThen, if_pos hempty] at hwc hwp
        rw [hfiles, ← hwc]
        refine ⟨hc, fun pgno hpos hskip => ?_⟩
        rw [hp pgno hpos hskip, l0Patch, l0Patch]
        simp only [hwp pgno (.inl hskip)]
      · have hfiles : l0Files wal pageSize (pms ++ [pm₂])
            = l0Files wal pageSize pms ++ [l0Patch wal pageSize pm₂] := by
          simp [l0Files, hempty]
        rw [PageMap.andThen, if_neg hempty] at hwc hwp
        have hlast : lastCommit 0 (l0Files wal pageSize pms) = (rd.entryAt i).commit := hc.trans h₁c
        obtain ⟨hmc, hmp⟩ := mergeAll_append_singleton (hlast ▸ hcov)
        rw [hfiles]
        refine ⟨hmc.trans hwc, fun pgno hpos hskip => ?_⟩
        have hwhole : whole.pages.find? pgno
            = if pgno ≤ pm₂.commit then (pm₂.pages.find? pgno).or (pm₁.pages.find? pgno)
                else Option.none := by
          rw [← hwp pgno (.inl hskip)]
          show ((pm₁.pages.insertAll pm₂.pages).filterKeys _).find? pgno = _
          rw [SortedMap.find?_filterKeys, SortedMap.find?_insertAll]
          simp only [decide_eq_true_eq]
        by_cases hle : pgno ≤ pm₂.commit
        · rw [hmp pgno hpos hle hskip]
          have hle' : pgno ≤ (l0Patch wal pageSize pm₂).commit := hle
          simp only [Patch.merge, if_pos hle']
          rw [hp pgno hpos hskip]
          simp only [l0Patch, hwhole, if_pos hle, Option.map_or]
        · have hle' : ¬ pgno ≤ lastCommit 0
            (l0Files wal pageSize pms ++ [l0Patch wal pageSize pm₂]) := by
            rw [lastCommit_append_singleton]
            exact hle
          rw [l0Patch_page?_eq_none (hwhole.trans (if_neg hle))]
          exact if_neg hle'

/-- Resuming at the end of any commit frame succeeds, and the page map from there composed with the
one up to there is the page map from the top: in its size and its end, at every page but the lock
page, and altogether where no frame carries the lock page. So the L0 files of a WAL that is cut at
any commits fold to the pages of one L0 file over the whole. -/
theorem resume_agrees {wal : Bytes} (hnew : new wal = .ok rd)
    (hgrow : Grows (lockPgno rd.pageSize) (rd.frames maxOffset))
    (hpgno : ∀ e ∈ rd.frames maxOffset, e.commit ≠ 0 → e.key ≤ e.commit) :
    (∀ i < rd.chainLength maxOffset, (rd.entryAt i).commit ≠ 0 →
      ∃ rd', withOffset wal (rd.slotStart (i + 1)) rd.salt1 rd.salt2 = .ok rd' ∧
        PageMap.AgreeOff (lockPgno rd.pageSize)
          ((rd.pageMapUntil (rd.slotStart (i + 1))).1.andThen rd'.pageMap.1) rd.pageMap.1 ∧
        (lockPgno rd.pageSize ∉ (rd.frames maxOffset).map key →
          (rd.pageMapUntil (rd.slotStart (i + 1))).1.andThen rd'.pageMap.1 = rd.pageMap.1)) ∧
    ∀ cuts : List Nat, cuts.Pairwise (· < ·) →
      (∀ i ∈ cuts, i < rd.chainLength maxOffset ∧ (rd.entryAt i).commit ≠ 0) →
      ∃ pms,
        partMaps wal rd.salt1 rd.salt2 maxOffset rd (cuts.map fun i => rd.slotStart (i + 1)) =
          .ok pms ∧
        (mergeAll (l0Files wal rd.pageSize pms)).commit =
          (l0Patch wal rd.pageSize rd.pageMap.1).commit ∧
        ∀ pgno, 0 < pgno → pgno ≠ lockPgno rd.pageSize →
          (mergeAll (l0Files wal rd.pageSize pms)).page? pgno
            = (l0Patch wal rd.pageSize rd.pageMap.1).page? pgno := by
  refine ⟨fun i hi hcommit => ?_,
    fun cuts hcuts hcommit => partMaps_fold hnew hgrow hpgno hcuts hcommit _⟩
  -- the pages agree but for the lock page
  obtain ⟨hc, hm, hp⟩ := andThen_atSlot hnew hgrow hpgno hi hcommit
  refine ⟨rd.atSlot (i + 1), withOffset_slotStart hnew (chain_chainLength maxOffset i hi).1,
    ⟨hc, hm, fun pgno hskip => hp pgno (.inl hskip)⟩, fun hlock => ?_⟩
  have hpages : ∀ pgno, ((rd.pageMapUntil (rd.slotStart (i + 1))).1.andThen
      (rd.atSlot (i + 1)).pageMap.1).pages.find? pgno = rd.pageMap.1.pages.find? pgno := by
    -- a lock page in no frame is in neither map
    intro pgno
    by_cases hskip : pgno = lockPgno rd.pageSize
    · exact hp pgno (.inr (hskip ▸ hlock))
    · exact hp pgno (.inl hskip)
  exact PageMap.ext (SortedMap.ext_find? hpages) hm hc

/-- Where each commit carries the one page by which it may grow over another commit. -/
theorem grows_of_key {skip : Nat} {log : List LogEntry}
    (h : ∀ x ∈ log, x.commit ≠ 0 → ∀ y ∈ log, ∀ k, x.commit < k → k ≤ y.commit → k ≠ skip →
      k = y.key) :
    Grows skip log := by
  rintro a x mid y b rfl hx - - k hlow hhigh hskip
  have hkey := h x (by simp) hx y (by simp) k hlow hhigh hskip
  simp [hkey]

/-- A reader resumed in the sample WAL. -/
theorem resume_agrees_sampleWal :
    ∃ rd', withOffset sampleWal 568 7 9 = .ok rd' ∧
      PageMap.AgreeOff 2097153 ((sampleReader.pageMapUntil 568).1.andThen rd'.pageMap.1)
        sampleReader.pageMap.1 := by
  have hgrow : Grows (lockPgno sampleReader.pageSize) (sampleReader.frames maxOffset) := by
    rw [frames_sampleReader]
    refine grows_of_key ?_
    simp only [List.forall_mem_cons, List.not_mem_nil]
    grind
  obtain ⟨rd', hresume, hagree, -⟩ := (resume_agrees new_sampleWal hgrow pgno_le_sampleReader).1 0
    (by rw [chainLength_sampleReader]; decide) (by decide +kernel)
  exact ⟨rd', hresume, hagree⟩

/-- The lock page in a transaction that shrinks the database below it, and a growth over it. -/
def lockWal : Bytes :=
  walBytes true 512 7 9 [(⟨2097153, 0⟩, List.replicate 512 0), (⟨1, 2097152⟩, List.replicate 512 1),
    (⟨1, 2097153⟩, List.replicate 512 2)]

/-- A reader at the top of it. -/
def lockReader : WalReader where
  r := lockWal
  bigEndian := true
  pageSize := 512
  salt1 := 7
  salt2 := 9
  chksum := storedChecksum lockWal 24

/-- The WAL with a frame of the lock page has a reader. -/
theorem new_lockWal : new lockWal = .ok lockReader := by decide +kernel

/-- It has a chain of three frames. -/
theorem chainLength_lockReader : lockReader.chainLength maxOffset = 3 :=
  chainLength_eq (by decide +kernel) (by decide +kernel)

/-- The three frames, the first of them of the lock page. -/
theorem frames_lockReader :
    lockReader.frames maxOffset = [⟨2097153, 32, 0⟩, ⟨1, 568, 2097152⟩, ⟨1, 1104, 2097153⟩] := by
  rw [frames, chainLength_lockReader]
  decide +kernel

/-- Its commits never shrink the database. -/
theorem grows_lockReader : Grows 2097153 (lockReader.frames maxOffset) := by
  rw [frames_lockReader]
  refine grows_of_key ?_
  simp only [List.forall_mem_cons, List.not_mem_nil]
  grind

/-- Where a frame carries the lock page, the composed page map may lack it. -/
theorem resume_misses_lock_page :
    ∃ wal rd rd', new wal = .ok rd ∧ isValidPageSize rd.pageSize = true ∧
      Grows (lockPgno rd.pageSize) (rd.frames maxOffset) ∧
      (∀ e ∈ rd.frames maxOffset, e.commit ≠ 0 → e.key ≤ e.commit) ∧
      1 < rd.chainLength maxOffset ∧ (rd.entryAt 1).commit ≠ 0 ∧
      withOffset wal (rd.slotStart 2) rd.salt1 rd.salt2 = .ok rd' ∧
      (rd.pageMapUntil (rd.slotStart 2)).1.andThen rd'.pageMap.1 ≠ rd.pageMap.1 := by
  have hpgno : ∀ e ∈ lockReader.frames maxOffset, e.commit ≠ 0 → e.key ≤ e.commit := by
    rw [frames_lockReader]
    decide
  refine ⟨lockWal, lockReader, lockReader.atSlot 2, new_lockWal, by decide, grows_lockReader, hpgno,
    by rw [chainLength_lockReader]; decide, by decide +kernel, ?_, fun heq => ?_⟩
  · exact withOffset_slotStart new_lockWal
      (chain_chainLength maxOffset 1 (by rw [chainLength_lockReader]; decide)).1
  · have hlock : ((lockReader.pageMapUntil (lockReader.slotStart 2)).1.andThen
        (lockReader.atSlot 2).pageMap.1).pages.find? 2097153 = none := by decide +kernel
    rw [heq] at hlock
    have htop : lockReader.pageMap.1.pages.find? 2097153 = some 32 := by decide +kernel
    rw [htop] at hlock
    cases hlock

end WalReader

end Liters
