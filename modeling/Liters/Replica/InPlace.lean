import Liters.Foundation.Overlay
import Liters.Maintenance.Safety
import Liters.Replica.Sync

/-! # Files applied in place

What applying a file does to the database file byte by byte, and what is left if it stops on the
way. A page reads as a version if its bytes are those of the version, but for the few bytes of page
1 that the replica sets itself. `Held` says how far the file on disk can be trusted: up to a
transaction `c` it is the writer's database, and no page is of a transaction behind `hi`. Applying a
file moves both; a file that is applied in part moves only `hi` (`applySpooled_spec`). -/

namespace Liters

/-! ## Pages of a file -/

/-- The bytes of page 1 that the replica sets itself. -/
def Masked (p j : Nat) : Prop := p = 1 ∧ (j = 18 ∨ j = 19 ∨ (24 ≤ j ∧ j < 28))

/-- Page `p` of a database file reads as `v`. -/
def Reads (pageSize : Nat) (db : Bytes) (p : Nat) (v : Bytes) : Prop :=
  p * pageSize ≤ db.length ∧
    ∀ j < pageSize, ¬ Masked p j → byteAt db ((p - 1) * pageSize + j) = byteAt v j

/-- Where a page starts and ends. -/
theorem pred_mul_add {p : Nat} (pageSize : Nat) (hp : 0 < p) :
    (p - 1) * pageSize + pageSize = p * pageSize := by
  obtain ⟨p, rfl⟩ : ∃ q, p = q + 1 := ⟨p - 1, by omega⟩
  rw [Nat.add_sub_cancel, Nat.succ_mul]

/-- A page is presented as it is, outside the bytes a writer masks. -/
theorem byteAt_presentPage (noise : Nat → UInt8) {p j : Nat} (data : Bytes) (h : ¬ Masked p j) :
    byteAt (Replica.presentPage noise p data) j = byteAt data j := by
  unfold Replica.presentPage
  split
  · rename_i hcond
    have hj : ¬ (j = 18 ∨ j = 19 ∨ (24 ≤ j ∧ j < 28)) := fun hj => h ⟨hcond.1, hj⟩
    rw [byteAt_pwrite_of_not_mem _ (by simp only [List.length_cons, List.length_nil]; omega),
      byteAt_pwrite_of_not_mem _ (by simp only [List.length_cons, List.length_nil]; omega)]
  · rfl

/-- It is presented at its length. -/
@[simp] theorem length_presentPage (noise : Nat → UInt8) (p : Nat) (data : Bytes) :
    (Replica.presentPage noise p data).length = data.length := by
  unfold Replica.presentPage
  split
  · rw [length_pwrite _ _ (List.cons_ne_nil _ _), length_pwrite _ _ (List.cons_ne_nil _ _)]
    simp only [List.length_cons, List.length_nil]
    omega
  · rfl

section
variable {pageSize : Nat} {db : Bytes} {p : Nat}

/-- A page that was written reads as what was written. -/
theorem reads_pwrite_same (hps : 0 < pageSize) (hp : 0 < p) (noise : Nat → UInt8) {v : Bytes}
    (hv : v.length = pageSize) :
    Reads pageSize (pwrite db ((p - 1) * pageSize) (Replica.presentPage noise p v)) p v := by
  have hlen : (Replica.presentPage noise p v).length = pageSize := by rw [length_presentPage, hv]
  have hne : Replica.presentPage noise p v ≠ [] := List.ne_nil_of_length_pos (by omega)
  constructor
  · rw [length_pwrite _ _ hne, hlen, pred_mul_add pageSize hp]
    exact le_max_right ..
  · intro j hj hmask
    rw [byteAt_pwrite_of_mem _ (by omega), byteAt_presentPage _ _ hmask]

/-- The other pages stay. -/
theorem Reads.pwrite_of_ne {q : Nat} {v data : Bytes} (h : Reads pageSize db p v) (hp : 0 < p)
    (hq : 0 < q) (hne : p ≠ q) (hdata : data.length = pageSize) :
    Reads pageSize (pwrite db ((q - 1) * pageSize) data) p v := by
  constructor
  · by_cases hnil : data = []
    · rw [pwrite, if_pos hnil]
      exact h.1
    · rw [length_pwrite _ _ hnil]
      exact h.1.trans (le_max_left ..)
  · intro j hj hmask
    rw [byteAt_pwrite_of_not_mem, h.2 j hj hmask]
    have hpe := pred_mul_add pageSize hp
    have hqe := pred_mul_add pageSize hq
    rcases Nat.lt_or_gt_of_ne hne with hlt | hlt
    · have hle : p * pageSize ≤ (q - 1) * pageSize := Nat.mul_le_mul_right _ (by omega)
      exact .inl (by omega)
    · have hle : q * pageSize ≤ (p - 1) * pageSize := Nat.mul_le_mul_right _ (by omega)
      exact .inr (by omega)

/-- Pages within the new size stay. -/
theorem Reads.setLen {v : Bytes} {m : Nat} (h : Reads pageSize db p v) (hp : 0 < p) (hm : p ≤ m) :
    Reads pageSize (setLen db (m * pageSize)) p v := by
  have hle : p * pageSize ≤ m * pageSize := Nat.mul_le_mul_right _ hm
  have hpe := pred_mul_add pageSize hp
  constructor
  · rw [length_setLen]
    exact hle
  · intro j hj hmask
    rw [byteAt_setLen _ (by omega), h.2 j hj hmask]

end

/-! ## Steps -/

namespace Replica

variable {env : SyncEnv} {s : Follower} {e : ReplicaError} {E : Halt → Follower → Prop}

/-- What a step leaves alone but for its effect: everything else, and time goes on. -/
structure Later (s s' : Follower) : Prop where
  txid : s'.txid = s.txid
  reached : s'.reached = s.reached
  rooted : s'.rooted = s.rooted
  clock : s.clock ≤ s'.clock

/-- Nothing has moved yet. -/
theorem Later.refl (s : Follower) : Later s s := ⟨rfl, rfl, rfl, Nat.le_refl _⟩

/-- What is later than later is later. -/
theorem Later.trans {s₁ s₂ s₃ : Follower} (h : Later s₁ s₂) (h' : Later s₂ s₃) : Later s₁ s₃ :=
  ⟨h'.txid.trans h.txid, h'.reached.trans h.reached, h'.rooted.trans h.rooted,
    h.clock.trans h'.clock⟩

/-- A tick advances the clock. -/
theorem spec_tick {Q : Moment → Follower → Prop} :
    Spec (tick env) s Q E ↔ Q (env.moment s.clock) { s with clock := s.clock + 1 } := Iff.rfl

/-- An effect is done, or it took place and failed, or it did not take place. -/
theorem spec_effect {f : Moment → Follower → Follower} {Q : Unit → Follower → Prop}
    (hdone : ∀ m, Q () (f m { s with clock := s.clock + 1 }))
    (htook : ∀ m halt, E halt (f m { s with clock := s.clock + 1 }))
    (hnot : ∀ halt, E halt { s with clock := s.clock + 1 }) : Spec (effect env e f) s Q E := by
  unfold effect
  rw [spec_bind, spec_tick]
  cases (env.moment s.clock).turn with
  | done => exact hdone _
  | failed => exact hnot _
  | killed took =>
      cases took with
      | false => exact hnot _
      | true => exact htook _ _

/-- A step without an effect only takes time. -/
theorem spec_pass {Q : Unit → Follower → Prop} (hdone : Q () { s with clock := s.clock + 1 })
    (hstop : ∀ halt, E halt { s with clock := s.clock + 1 }) : Spec (pass env e) s Q E :=
  spec_effect (fun _ => hdone) (fun _ halt => hstop halt) hstop

/-- So does one whose failure is ignored. -/
theorem spec_passAnyway {Q : Unit → Follower → Prop} (hdone : Q () { s with clock := s.clock + 1 })
    (hstop : ∀ halt, E halt { s with clock := s.clock + 1 }) : Spec (passAnyway env) s Q E := by
  unfold passAnyway
  rw [spec_bind, spec_tick]
  cases (env.moment s.clock).turn with
  | done => exact hdone
  | failed => exact hdone
  | killed took => exact hstop _

/-- A request sees the bucket of its moment. -/
theorem spec_request {Q : Bucket → Follower → Prop}
    (hdone : Q (env.moment s.clock).bucket { s with clock := s.clock + 1 })
    (hstop : ∀ halt, E halt { s with clock := s.clock + 1 }) : Spec (request env) s Q E := by
  unfold request
  rw [spec_bind, spec_tick]
  cases (env.moment s.clock).turn with
  | done => exact hdone
  | failed => exact hstop _
  | killed took => exact hstop _

/-- A listing lists the bucket of its moment. -/
theorem spec_listLevel {level seek : Nat} {Q : List FileInfo → Follower → Prop}
    (hdone : Q ((env.moment s.clock).bucket.ltxFiles level seek) { s with clock := s.clock + 1 })
    (hstop : ∀ halt, E halt { s with clock := s.clock + 1 }) :
    Spec (listLevel env level seek) s Q E := by
  unfold listLevel
  rw [spec_bind]
  exact spec_request hdone hstop

/-! ## Writing the pages -/

/-- **Writing pages.** In the end each page reads as written and the others as before; on the way
each page reads as written or as before. -/
theorem writePages_spec {pageSize : Nat} (hps : 0 < pageSize) {pages : List Page}
    (hasc : pages.Pairwise fun a b => a.1 < b.1)
    (hpages : ∀ pg ∈ pages, 0 < pg.1 ∧ pg.2.length = pageSize) (s : Follower) :
    Spec (writePages env pageSize pages) s
      (fun _ s' => Later s s' ∧ (∀ p v, (p, v) ∈ pages → Reads pageSize s'.db p v) ∧
        ∀ p v, 0 < p → (∀ w, (p, w) ∉ pages) → Reads pageSize s.db p v → Reads pageSize s'.db p v)
      (fun _ s' => Later s s' ∧ ∀ p, 0 < p → (∃ v, (p, v) ∈ pages ∧ Reads pageSize s'.db p v) ∨
        ∀ v, Reads pageSize s.db p v → Reads pageSize s'.db p v) := by
  induction pages generalizing s with
  | nil => exact ⟨.refl s, fun p v hmem => (by cases hmem), fun _ _ _ _ h => h⟩
  | cons page pages ih =>
      obtain ⟨q, data⟩ := page
      obtain ⟨hq, hdata⟩ := hpages (q, data) (List.mem_cons_self ..)
      have hrest := ih (List.pairwise_cons.mp hasc).2 fun pg hpg =>
        hpages pg (List.mem_cons_of_mem _ hpg)
      have hlater : ∀ m : Moment, Later s { s with
          db := pwrite s.db ((q - 1) * pageSize) (presentPage m.noise q data),
          clock := s.clock + 1 } := fun m => ⟨rfl, rfl, rfl, Nat.le_succ _⟩
      -- the page just written, and every other one
      have hsame : ∀ m : Moment, Reads pageSize
          (pwrite s.db ((q - 1) * pageSize) (presentPage m.noise q data)) q data :=
        fun m => reads_pwrite_same hps hq m.noise hdata
      have hother : ∀ (m : Moment) p v, 0 < p → p ≠ q → Reads pageSize s.db p v →
          Reads pageSize (pwrite s.db ((q - 1) * pageSize) (presentPage m.noise q data)) p v :=
        fun m p v hp hne h => h.pwrite_of_ne hp hq hne (by rw [length_presentPage, hdata])
      have hnew : ∀ w, (q, w) ∉ pages := fun w hw =>
        absurd ((List.pairwise_cons.mp hasc).1 (q, w) hw) (Nat.lt_irrefl q)
      rw [writePages]
      refine Spec.bind (Q := fun _ s' => ∃ m : Moment, s' = { s with
        db := pwrite s.db ((q - 1) * pageSize) (presentPage m.noise q data),
        clock := s.clock + 1 }) (spec_effect (fun m => ⟨m, rfl⟩) (fun m halt => ?_) fun halt => ?_)
          ?_
      · refine ⟨hlater m, fun p hp => ?_⟩
        by_cases hpq : p = q
        · subst hpq
          exact .inl ⟨data, List.mem_cons_self .., hsame m⟩
        · exact .inr fun v => hother m p v hp hpq
      · exact ⟨⟨rfl, rfl, rfl, Nat.le_succ _⟩, fun p _ => .inr fun v h => h⟩
      · rintro - - ⟨m, rfl⟩
        refine (hrest _).mono ?_ ?_
        · rintro - s' ⟨hl, hwritten, hkept⟩
          refine ⟨(hlater m).trans hl, fun p v hmem => ?_, fun p v hp hno h => ?_⟩
          · rcases List.mem_cons.mp hmem with heq | hmem
            · obtain ⟨rfl, rfl⟩ := Prod.mk.inj heq
              exact hkept p v hq hnew (hsame m)
            · exact hwritten p v hmem
          · have hpq : p ≠ q := by
              rintro rfl
              exact hno data (List.mem_cons_self ..)
            exact hkept p v hp (fun w hw => hno w (List.mem_cons_of_mem _ hw))
              (hother m p v hp hpq h)
        · rintro - s' ⟨hl, hpart⟩
          refine ⟨(hlater m).trans hl, fun p hp => ?_⟩
          rcases hpart p hp with ⟨v, hmem, hr⟩ | hkeep
          · exact .inl ⟨v, List.mem_cons_of_mem _ hmem, hr⟩
          · by_cases hpq : p = q
            · subst hpq
              exact .inl ⟨data, List.mem_cons_self .., hkeep data (hsame m)⟩
            · exact .inr fun v h => hkeep v (hother m p v hp hpq h)

end Replica

/-! ## What the file on disk holds -/

/-- The database file holds the writer's database at `t`, up to pages that transactions behind `t`,
but none behind `hi`, touched. With `hi = t` it is that database. -/
structure Held (U : Uploads) (n t hi : Nat) (db : Bytes) : Prop where
  le : t ≤ hi
  bound : hi ≤ n
  intact : U.history.Intact U.lock t hi (Reads U.pageSize.toNat db)
  length : hi = t → db.length = (U.state t).size * U.pageSize.toNat

section
variable {U : Uploads} {n t lo hi : Nat} {db db' : Bytes} {f : LtxFile}

/-- Less may be claimed. -/
theorem Held.lower (h : Held U n t hi db) (hn : n < 2 ^ 64 - 1) (hlo : lo ≤ t) :
    Held U n lo hi db where
  le := hlo.trans h.le
  bound := h.bound
  intact := h.intact.lower (U.growing n hn) h.bound hlo h.le
  length := by
    intro heq
    have hle := h.le
    obtain rfl : lo = t := by omega
    exact h.length heq

/-- A file that was written in part. -/
theorem Held.torn (h : Held U n t hi db) (hn : n < 2 ^ 64 - 1) (hf : FileOk U n f)
    (hlt : t < f.hdr.maxTxid.toNat)
    (ht : History.Torn U.lock f.patch (Reads U.pageSize.toNat db) (Reads U.pageSize.toNat db')) :
    Held U n t (max hi f.hdr.maxTxid.toNat) db' where
  le := h.le.trans (le_max_left ..)
  bound := max_le h.bound hf.le
  intact := h.intact.torn (U.growing n hn) hf.exact h.bound hf.le h.le hlt.le ht
  length := fun heq => absurd heq (by omega)

/-- The length of the file once the size of a file of the history is set. -/
theorem FileOk.length_eq (hf : FileOk U n f)
    (hlen : db.length = f.patch.commit * U.pageSize.toNat) :
    db.length = (U.state f.hdr.maxTxid.toNat).size * U.pageSize.toNat := by
  rw [hlen, hf.exact.commit, Uploads.state, History.state_size (hf.exact.pos.trans hf.exact.le)]

/-- A file that was written in full. -/
theorem Held.written (h : Held U n t hi db) (hn : n < 2 ^ 64 - 1) (hf : FileOk U n f)
    (hat : f.hdr.minTxid.toNat ≤ t + 1) (hlt : t < f.hdr.maxTxid.toNat)
    (hw : History.Written U.lock f.patch (Reads U.pageSize.toNat db) (Reads U.pageSize.toNat db'))
    (hlen : db'.length = f.patch.commit * U.pageSize.toNat) :
    Held U n f.hdr.maxTxid.toNat (max hi f.hdr.maxTxid.toNat) db' where
  le := le_max_right ..
  bound := max_le h.bound hf.le
  intact := h.intact.written (U.growing n hn) hf.exact h.bound hf.le h.le hat hlt.le hw
  length := fun _ => hf.length_eq hlen

/-- A file from the first transaction on that was written in full, whatever was there before. -/
theorem FileOk.held (hf : FileOk U n f) (hn : n < 2 ^ 64 - 1) (hmin : f.hdr.minTxid.toNat = 1)
    (hw : History.Written U.lock f.patch (Reads U.pageSize.toNat db) (Reads U.pageSize.toNat db'))
    (hlen : db'.length = f.patch.commit * U.pageSize.toNat) :
    Held U n f.hdr.maxTxid.toNat f.hdr.maxTxid.toNat db' where
  le := le_rfl
  bound := hf.le
  intact := History.intact_of_complete (U.growing n hn) (hmin ▸ hf.exact) hf.le hw
  length := fun _ => hf.length_eq hlen

end

/-! ## Applying a file -/

namespace Replica

variable {c : Codec} {U : Uploads} {n : Nat} {env : SyncEnv} {opts : ReplicaOptions}

/-- What is left once all pages of a file are written and its size is set. -/
structure AppliedOver (f : LtxFile) (pageSize : Nat) (s s' : Follower) :
    Prop extends Later s s' where
  written : History.Written f.lock f.patch (Reads pageSize s.db) (Reads pageSize s'.db)
  length : s'.db.length = f.patch.commit * pageSize

/-- What is left if the writing stops on the way. -/
structure TornOver (f : LtxFile) (pageSize : Nat) (s s' : Follower) : Prop extends Later s s' where
  torn : History.Torn f.lock f.patch (Reads pageSize s.db) (Reads pageSize s'.db)

/-- A file written wholly is one written partly. -/
theorem AppliedOver.tornOver {f : LtxFile} {pageSize : Nat} {s s' : Follower}
    (h : AppliedOver f pageSize s s') : TornOver f pageSize s s' where
  toLater := h.toLater
  torn := by
    intro p h0 hp hs
    cases hv : f.patch.page? p with
    | some v => exact .inl ⟨v, rfl, h.written.carried p v h0 hp hs hv⟩
    | none => exact .inr fun v => h.written.kept p v h0 hp hs hv

/-- Writing the pages of a file and setting its size. -/
theorem writeFile_spec (f : LtxFile) {pageSize : Nat} (hsize : f.hdr.pageSize.toNat = pageSize)
    (s : Follower) :
    Spec (writeFile env pageSize f.hdr f.pages) s
      (fun _ s' => AppliedOver f pageSize s s') (fun _ s' => TornOver f pageSize s s') := by
  have hps : 0 < pageSize := by
    have := isValidPageSize_bounds f.plainOk.pageSize
    omega
  have hpages : ∀ pg ∈ f.pages, 0 < pg.1 ∧ pg.2.length = pageSize := by
    intro pg hpg
    obtain ⟨h0, -, hlen, -⟩ := LtxFile.mem_pages hpg
    exact ⟨h0, hlen.trans hsize⟩
  unfold writeFile
  refine Spec.bind ((writePages_spec hps f.pages_ascending hpages s).mono (fun _ _ h => h) ?_) ?_
  · rintro - s' ⟨hl, hpart⟩
    refine ⟨hl, fun p h0 _ _ => ?_⟩
    rcases hpart p h0 with ⟨v, hmem, hr⟩ | hkeep
    · exact .inl ⟨v, LtxFile.mem_pages_iff.mp hmem, hr⟩
    · exact .inr hkeep
  · rintro - s₁ ⟨hl, hwritten, hkept⟩
    have hwritten' : History.Written f.lock f.patch (Reads pageSize s.db)
        (Reads pageSize s₁.db) := by
      refine ⟨fun p v _ _ _ hv => hwritten p v (LtxFile.mem_pages_iff.mpr hv), ?_⟩
      intro p v h0 _ _ hnone
      refine hkept p v h0 fun w hw => ?_
      rw [LtxFile.mem_pages_iff, hnone] at hw
      cases hw
    -- after the new size, whether or not the last sync succeeds
    have happlied : ∀ k, s₁.clock ≤ k → AppliedOver f pageSize s
        { s₁ with db := setLen s₁.db (f.hdr.commit.toNat * pageSize), clock := k } := by
      intro k hk
      refine ⟨⟨hl.txid, hl.reached, hl.rooted, hl.clock.trans hk⟩, ⟨?_, ?_⟩, length_setLen ..⟩
      · intro p v h0 hp hs hv
        exact (hwritten'.carried p v h0 hp hs hv).setLen h0 hp
      · intro p v h0 hp hs hnone hr
        exact (hwritten'.kept p v h0 hp hs hnone hr).setLen h0 hp
    have htorn : ∀ k, s₁.clock ≤ k → TornOver f pageSize s { s₁ with clock := k } := by
      intro k hk
      refine ⟨⟨hl.txid, hl.reached, hl.rooted, hl.clock.trans hk⟩, fun p h0 hp hs => ?_⟩
      cases hv : f.patch.page? p with
      | some v => exact .inl ⟨v, rfl, hwritten'.carried p v h0 hp hs hv⟩
      | none => exact .inr fun v => hwritten'.kept p v h0 hp hs hv
    unfold setSize
    rw [if_pos f.commit_ne_zero]
    refine Spec.bind (Q := fun _ s' => s' = { s₁ with
      db := setLen s₁.db (f.hdr.commit.toNat * pageSize), clock := s₁.clock + 1 })
      (spec_effect (fun _ => rfl) (fun _ _ => (happlied _ (Nat.le_succ _)).tornOver)
        fun _ => htorn _ (Nat.le_succ _)) ?_
    rintro - - rfl
    have hclock : s₁.clock ≤ s₁.clock + 1 + 1 := by omega
    exact spec_pass (happlied _ hclock) fun _ => (happlied _ hclock).tornOver

/-- The state of a follower once a file of the history that ends at `b` was applied in full. -/
structure Applied (U : Uploads) (n b : Nat) (s s' : Follower) : Prop where
  txid : s'.txid = s.txid
  clock : s.clock ≤ s'.clock
  rooted : s'.rooted = true
  reached : s'.reached = if s.rooted then max s.reached b else b
  held : Held U n b s'.reached s'.db

/-- The state of a follower at position `t` after an attempt that did not succeed. -/
structure Missed (U : Uploads) (n t : Nat) (s s' : Follower) : Prop where
  txid : s'.txid = s.txid
  clock : s.clock ≤ s'.clock
  rooted : s'.rooted = s.rooted
  held : s.rooted = true → Held U n t s'.reached s'.db

/-- An attempt that kept the database and the position missed. -/
theorem Missed.of_later {t : Nat} {s s' : Follower} (hl : Later s s') (hdb : s'.db = s.db)
    (hheld : s.rooted = true → Held U n t s.reached s.db) : Missed U n t s s' where
  txid := hl.txid
  clock := hl.clock
  rooted := hl.rooted
  held := fun hr => by rw [hl.reached, hdb]; exact hheld hr

/-- A well-formed file is applied unless its page size is another one. -/
theorem applySpooled_bytes (hc : c.Lawful) (f : LtxFile) (pageSize : Nat) :
    applySpooled env c opts pageSize (f.bytes c) =
      if f.hdr.pageSize.toNat ≠ pageSize then
        throw (.error (.diverged f.hdr.minTxid.toNat f.hdr.maxTxid.toNat))
      else applyDecoded env opts pageSize f.hdr f.pages := by
  have hdecode := f.decodeFile_bytes hc
  generalize f.bytes c = body at hdecode ⊢
  unfold applySpooled verifyFile
  rw [hdecode]
  rfl

/-- **Applying a file of the history in place** at a position it continues: a file applied in full
brings the follower to its end, any other outcome leaves it where it was. On an image of another
origin this needs a file that starts at transaction 1, or a page size by which it is refused. -/
theorem applySpooled_spec (hc : c.Lawful) (hn : n < 2 ^ 64 - 1) {f : LtxFile} (hf : FileOk U n f)
    {body : Bytes} (hbody : body = f.bytes c) {t : Nat} (hat : f.hdr.minTxid.toNat ≤ t + 1)
    (hlt : t < f.hdr.maxTxid.toNat) (pageSize : Nat) {s : Follower}
    (hheld : s.rooted = true → Held U n t s.reached s.db)
    (hroot : s.rooted = false → pageSize = U.pageSize.toNat → f.hdr.minTxid.toNat = 1) :
    Spec (applySpooled env c opts pageSize body) s
      (fun _ s' => Applied U n f.hdr.maxTxid.toNat s s') (fun _ s' => Missed U n t s s') := by
  rw [hbody, applySpooled_bytes hc]
  split
  · -- a file of another page size is refused before anything is written
    exact .of_later (.refl s) rfl hheld
  · rename_i hsize
    have hsize : f.hdr.pageSize.toNat = pageSize := not_not.mp hsize
    have hps : U.pageSize.toNat = pageSize := by rw [← hf.size, hsize]
    have hlock : f.lock = U.lock := hf.lock
    unfold applyDecoded
    -- the lock wait changes neither the image nor the position
    refine Spec.bind (Q := fun _ s' => Later s s' ∧ s'.db = s.db) ?_ ?_
    · unfold takeLock
      split
      · exact spec_pass ⟨⟨rfl, rfl, rfl, Nat.le_succ _⟩, rfl⟩ fun _ =>
          .of_later ⟨rfl, rfl, rfl, Nat.le_succ _⟩ rfl hheld
      · exact ⟨.refl s, rfl⟩
    rintro - s₁ ⟨hl, hdb⟩
    rw [spec_bind, spec_modify]
    have hstart : (s₁.start f.hdr).reached = max s.reached f.hdr.maxTxid.toNat := by
      show max s₁.reached _ = _
      rw [hl.reached]
    refine Spec.bind ((writeFile_spec f hsize _).mono (fun _ _ h => h) ?_) ?_
    · -- killed in between: old and new pages are mixed
      rintro - s' ⟨hl', htorn⟩
      refine ⟨hl'.txid.trans hl.txid, hl.clock.trans hl'.clock, hl'.rooted.trans hl.rooted,
        fun hr => ?_⟩
      rw [hl'.reached, hstart]
      refine (hheld hr).torn hn hf hlt ?_
      rw [← hlock, hps, ← hdb]
      exact htorn
    · -- all pages are written
      rintro - s' ⟨hl', hwritten, hlen⟩
      rw [spec_modify]
      have hwritten' : History.Written U.lock f.patch (Reads U.pageSize.toNat s.db)
          (Reads U.pageSize.toNat s'.db) := by
        rw [← hlock, hps, ← hdb]
        exact hwritten
      have hlen' : s'.db.length = f.patch.commit * U.pageSize.toNat := by rw [hps, hlen]
      have hrooted : s'.rooted = s.rooted := hl'.rooted.trans hl.rooted
      have hreached : s'.reached = max s.reached f.hdr.maxTxid.toNat := hl'.reached.trans hstart
      have htxid : s'.txid = s.txid := hl'.txid.trans hl.txid
      have hclock : s.clock ≤ s'.clock := hl.clock.trans hl'.clock
      unfold Follower.finish
      cases hr : s.rooted with
      -- the replica follows the uploads already
      | true =>
          rw [hrooted, hr, if_pos rfl]
          refine ⟨htxid, hclock, hrooted.trans hr, by rw [hr]; exact hreached, ?_⟩
          rw [hreached]
          exact (hheld hr).written hn hf hat hlt hwritten' hlen'
      -- it comes to follow them with this file, which is then a snapshot
      | false =>
          have hmin := hroot hr hps.symm
          have hsnap : f.hdr.isSnapshot = true := by
            have : f.hdr.minTxid = 1 := UInt64.toNat_inj.mp hmin
            rw [Header.isSnapshot, this]
            rfl
          rw [hrooted, hr, if_neg Bool.false_ne_true, if_pos hsnap]
          refine ⟨htxid, hclock, rfl, by rw [hr]; rfl, ?_⟩
          exact hf.held hn hmin hwritten' hlen'

end Replica

end Liters
