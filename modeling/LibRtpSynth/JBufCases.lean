/-
What a jitter buffer call can do.

The two entry points branch a lot; this file says once, for a call that does
not abort, which outcomes there are and what is known in each of them, so that
invariants are proved by cases over outcomes and never by unfolding the code:

* `purgeStaleTail_cases` — the stale tail is kept, aged or taken out;
* `Placed` — where `rtpjbuf_udp_in` puts a parsed datagram (late, duplicate,
  delivered, held, inserted, inserted with a release), `udpInParsed_cases`;
* `Flushed` — what `rtpjbuf_flush` does to a buffer that is not empty,
  `rtpjbufFlush_cases`;
* `Stepped` — the outcomes of a whole call, `jbufStep_cases`.
-/
import LibRtpSynth.JBuf
import LibRtpSynth.ParserGrammar
import Mathlib.Data.List.Chain
import Mathlib.Data.List.TakeWhile

open CWords

namespace Rtp

variable {s s' : RtpjbufInst} {r : RjbUdpInR} {fp : RtpPacket} {drop : List RtpPacket}

@[simp] theorem dAssert_eq_some {α : Type} {invar : Prop} [Decidable invar] {k : Option α}
    {a : α} : dAssert invar k = some a ↔ invar ∧ k = some a := by
  unfold dAssert
  split <;> simp_all

/-! ### Numbers that are not the sentinel -/

theorem lt_lmsDefault {n : ℕ} (h : n < 2 ^ 63) : n < lmsDefault := by
  unfold lmsDefault lrsDefault
  omega

theorem lt_of_lt_lmsDefault {n : ℕ} (h : n < lmsDefault) : n < 2 ^ 64 :=
  h.trans (by decide)

theorem add64_one {n : ℕ} (h : n < lmsDefault) : add64 n 1 = n + 1 :=
  add64_of_lt (by unfold lmsDefault lrsDefault at h; omega)

theorem sub64_one {n : ℕ} (h : n < lmsDefault) (hpos : 0 < n) : sub64 n 1 = n - 1 :=
  sub64_of_le (lt_of_lt_lmsDefault h) hpos

/-- `b` comes right after `a` (in 64-bit arithmetic). -/
def Follows (a b : RtpPacket) : Prop := add64 a.lseq 1 = b.lseq

theorem follows_iff {a b : RtpPacket} (ha : a.lseq < lmsDefault) :
    Follows a b ↔ b.lseq = a.lseq + 1 := by
  rw [Follows, add64_one ha, eq_comm]

/-! ### Erasures -/

theorem ersTsDiff_eq (lastTs ts : UInt32) : ∃ d, ersTsDiff lastTs ts = some d := by
  unfold ersTsDiff
  split
  · rename_i h
    have hlt : ts.toNat < lastTs.toNat := h
    -- the timestamp has wrapped, and the difference is below `2 ^ 32`
    exact ⟨_, dAssert_eq_some.mpr ⟨by omega, rfl⟩⟩
  · exact ⟨_, rfl⟩

/-- The erasure frame, if any, that `insert_ers_frame` puts in front of `fp`. -/
def ersBefore (rjbp : RtpjbufInst) (fp : RtpPacket) : List RtpFrame :=
  ((insertErsFrame rjbp fp []).getD []).dropLast

theorem insertErsFrame_eq (s : RtpjbufInst) (fp : RtpPacket) (rest : List RtpPacket) :
    insertErsFrame s fp rest = some (ersBefore s fp ++ (fp :: rest).map .rtp) := by
  obtain ⟨d, hd⟩ := ersTsDiff_eq s.lastTs fp.info.ts
  unfold ersBefore insertErsFrame
  split <;> simp [hd]

/-- An erasure covers exactly what lies between the last delivered packet and
`fp`. -/
theorem ersBefore_cases (s : RtpjbufInst) (fp : RtpPacket) :
    (add64 s.lastLseq 1 = fp.lseq ∧ ersBefore s fp = []) ∨
    (add64 s.lastLseq 1 ≠ fp.lseq ∧ ∃ e : ErsFrame, ersBefore s fp = [.ers e] ∧
      e.lseqStart = add64 s.lastLseq 1 ∧ e.lseqEnd = sub64 fp.lseq 1) := by
  obtain ⟨d, hd⟩ := ersTsDiff_eq s.lastTs fp.info.ts
  unfold ersBefore insertErsFrame
  by_cases h : add64 s.lastLseq 1 = fp.lseq
  · exact .inl ⟨h, by simp [h]⟩
  · exact .inr ⟨h, by simp [h, hd]⟩

/-! ### The loops -/

theorem releaseLoop_spec : ∀ (rest : List RtpPacket) (ifp : RtpPacket),
    ifp :: rest = (releaseLoop ifp rest).1 ++ (releaseLoop ifp rest).2.1 ::
        (releaseLoop ifp rest).2.2 ∧
      ((releaseLoop ifp rest).1 ++ [(releaseLoop ifp rest).2.1]).IsChain Follows ∧
      ∀ n ∈ (releaseLoop ifp rest).2.2.head?, ¬ Follows (releaseLoop ifp rest).2.1 n := by
  intro rest
  induction rest with
  | nil =>
    intro ifp
    simp [releaseLoop]
  | cons next rest ih =>
    intro ifp
    by_cases h : add64 ifp.lseq 1 = next.lseq
    · obtain ⟨h1, h2, h3⟩ := ih next
      rw [releaseLoop, if_neg (not_not.mpr h)]
      refine ⟨by rw [List.cons_append, ← h1], ?_, h3⟩
      -- the run goes on: its second frame is `next`
      have hcons : ∃ t, (releaseLoop next rest).1 ++ [(releaseLoop next rest).2.1] = next :: t := by
        cases hr : (releaseLoop next rest).1 with
        | nil =>
          rw [hr, List.nil_append, List.cons.injEq] at h1
          exact ⟨[], by rw [← h1.1]; rfl⟩
        | cons a as =>
          rw [hr, List.cons_append, List.cons.injEq] at h1
          exact ⟨as ++ [(releaseLoop next rest).2.1], by rw [← h1.1]; rfl⟩
      obtain ⟨t, ht⟩ := hcons
      show (ifp :: ((releaseLoop next rest).1 ++ [(releaseLoop next rest).2.1])).IsChain Follows
      rw [ht] at h2 ⊢
      exact List.isChain_cons_cons.mpr ⟨h, h2⟩
    · rw [releaseLoop, if_pos h]
      exact ⟨rfl, by simp, by simpa [Follows] using h⟩

/-- The segment `flushLoop` ends with is the last run of the list; the frames
before it go to the drop list. -/
theorem flushLoop_spec : ∀ (rest : List RtpPacket) (seg : List RtpPacket) (ifp : RtpPacket)
    (drop drop' seg' : List RtpPacket) (ifp' : RtpPacket),
    flushLoop seg ifp rest drop = (drop', seg', ifp') → (seg ++ [ifp]).IsChain Follows →
    ∃ front, seg ++ ifp :: rest = front ++ (seg' ++ [ifp']) ∧
      drop'.Perm (front ++ drop) ∧ (seg' ++ [ifp']).IsChain Follows ∧
      ∀ q ∈ front.getLast?, ∀ f₀ ∈ (seg' ++ [ifp']).head?, ¬ Follows q f₀ := by
  intro rest
  induction rest with
  | nil =>
    intro seg ifp drop drop' seg' ifp' h hchain
    simp only [flushLoop, Prod.mk.injEq] at h
    obtain ⟨rfl, rfl, rfl⟩ := h
    exact ⟨[], rfl, List.Perm.refl _, hchain, by simp⟩
  | cons next rest ih =>
    intro seg ifp drop drop' seg' ifp' h hchain
    rw [flushLoop] at h
    split at h
    · rename_i hnext
      -- a gap: the segment so far goes in front of what was dropped before
      obtain ⟨front, h1, h2, h3, h4⟩ := ih [] next _ _ _ _ h (by simp)
      rw [List.nil_append] at h1
      refine ⟨seg ++ ifp :: front, ?_, ?_, h3, ?_⟩
      · rw [h1]
        simp
      · refine h2.trans ?_
        have : (front ++ (seg ++ ifp :: drop)).Perm ((seg ++ ifp :: drop) ++ front) :=
          List.perm_append_comm
        refine this.trans ?_
        simp only [List.append_assoc, List.cons_append]
        exact (List.perm_append_left_iff _).mpr
          ((List.perm_cons _).mpr List.perm_append_comm)
      · intro q hq f₀ hf₀
        cases front with
        | nil =>
          -- the last run starts at `next`
          rw [List.getLast?_append_cons, List.getLast?_singleton] at hq
          rw [List.nil_append] at h1
          rw [← h1] at hf₀
          obtain rfl : ifp = q := Option.some.inj hq
          obtain rfl : next = f₀ := Option.some.inj hf₀
          exact hnext
        | cons f fs =>
          rw [List.getLast?_append_cons, List.getLast?_cons_cons] at hq
          exact h4 q hq f₀ hf₀
    · rename_i hnext
      rw [not_not] at hnext
      -- no gap: `next` belongs to the segment
      have hchain' : (seg ++ [ifp] ++ [next]).IsChain Follows := by
        rw [List.append_assoc, List.singleton_append, List.isChain_append_cons_cons]
        exact ⟨hchain, hnext, by simp⟩
      obtain ⟨front, h1, h2, h3, h4⟩ := ih _ _ _ _ _ _ h hchain'
      exact ⟨front, by rw [← h1]; simp, h2, h3, h4⟩

/-! ### The stale tail -/

/-- A frame whose age is one more. -/
def RtpPacket.aged (p : RtpPacket) : RtpPacket := { p with jbcnt := add64 p.jbcnt 1 }

/-- The instance with its stale tail `tail` taken out. -/
def purgedInst (s : RtpjbufInst) (prev : List RtpPacket) (tail : RtpPacket) : RtpjbufInst :=
  { s with
    head := prev
    size := sub32 s.size 1
    lastMaxLseq :=
      if s.lastMaxLseq = tail.lseq then (prev.getLast?).elim lmsDefault RtpPacket.lseq
      else s.lastMaxLseq }

/-- `purge_stale_tail` looks only at a buffer that is all but full; it then
ages the tail, or takes it out when it has been the tail for `capacity`
calls. -/
theorem purgeStaleTail_cases (s : RtpjbufInst) :
    (purgeStaleTail s = (none, s) ∧ (s.head = [] ∨ s.size < sub32 s.capacity 1)) ∨
    ∃ prev tail, s.head = prev ++ [tail] ∧ sub32 s.capacity 1 ≤ s.size ∧
      ((tail.aged.jbcnt < s.capacity ∧
          purgeStaleTail s = (none, { s with head := prev ++ [tail.aged] })) ∨
        (s.capacity ≤ tail.aged.jbcnt ∧
          purgeStaleTail s = (some tail.aged, purgedInst s prev tail))) := by
  rcases List.eq_nil_or_concat s.head with hnil | ⟨prev, tail, hhead⟩
  · exact .inl ⟨by simp [purgeStaleTail, hnil], .inl hnil⟩
  · rw [List.concat_eq_append] at hhead
    unfold purgeStaleTail
    rw [hhead, List.getLast?_concat, List.dropLast_concat]
    by_cases hsize : s.size < sub32 s.capacity 1
    · exact .inl ⟨if_pos hsize, .inr hsize⟩
    · refine .inr ⟨prev, tail, rfl, by omega, ?_⟩
      dsimp only
      rw [if_neg hsize]
      by_cases hage : add64 tail.jbcnt 1 < s.capacity
      · exact .inl ⟨hage, if_pos hage⟩
      · exact .inr ⟨not_lt.mp hage, if_neg hage⟩

/-- The purge touches the list, its size and the largest number only. -/
theorem purgeStaleTail_eq (s : RtpjbufInst) :
    (purgeStaleTail s).2 =
      { s with
        head := (purgeStaleTail s).2.head
        size := (purgeStaleTail s).2.size
        lastMaxLseq := (purgeStaleTail s).2.lastMaxLseq } := by
  rcases purgeStaleTail_cases s with ⟨heq, -⟩ | ⟨_, _, _, _, ⟨_, heq⟩ | ⟨_, heq⟩⟩
  · rw [heq]
  · rw [heq]
  · rw [heq]
    rfl

@[simp] theorem purgeStaleTail_capacity (s : RtpjbufInst) :
    (purgeStaleTail s).2.capacity = s.capacity := by
  rw [purgeStaleTail_eq]

@[simp] theorem purgeStaleTail_lastLseq (s : RtpjbufInst) :
    (purgeStaleTail s).2.lastLseq = s.lastLseq := by
  rw [purgeStaleTail_eq]

@[simp] theorem purgeStaleTail_lseqMask (s : RtpjbufInst) :
    (purgeStaleTail s).2.lseqMask = s.lseqMask := by
  rw [purgeStaleTail_eq]

/-! ### Placing a parsed datagram -/

/-- The instance and the logical sequence number after the conversion; the
first datagram takes its number as it is. -/
def assign (s : RtpjbufInst) (seq : UInt16) : RtpjbufInst × ℕ :=
  if s.lastMaxLseq = lmsDefault then (s, s.lseqMask ||| seq.toNat) else convertSeq s seq

/-- The conversion changes the epoch and its counter only. -/
theorem assign_eq (s : RtpjbufInst) (seq : UInt16) :
    (assign s seq).1 =
      { s with lseqMask := (assign s seq).1.lseqMask, seqWup := (assign s seq).1.seqWup } := by
  unfold assign convertSeq
  dsimp only
  split
  · rfl
  · split
    · rfl
    · split <;> rfl

@[simp] theorem assign_head (s : RtpjbufInst) (seq : UInt16) : (assign s seq).1.head = s.head := by
  rw [assign_eq]

@[simp] theorem assign_capacity (s : RtpjbufInst) (seq : UInt16) :
    (assign s seq).1.capacity = s.capacity := by
  rw [assign_eq]

@[simp] theorem assign_lastLseq (s : RtpjbufInst) (seq : UInt16) :
    (assign s seq).1.lastLseq = s.lastLseq := by
  rw [assign_eq]

@[simp] theorem assign_lastMaxLseq (s : RtpjbufInst) (seq : UInt16) :
    (assign s seq).1.lastMaxLseq = s.lastMaxLseq := by
  rw [assign_eq]

/-- `fp` goes between `pre` and `post`. -/
structure Inserted (s : RtpjbufInst) (fp : RtpPacket) (pre post : List RtpPacket) : Prop where
  head : s.head = pre ++ post
  head_ne : s.head ≠ []
  max_ne : s.lastMaxLseq ≠ lmsDefault
  fresh : s.lastLseq = lrsDefault ∨ s.lastLseq < fp.lseq
  pre_lt : ∀ q ∈ pre, q.lseq < fp.lseq
  post_gt : ∀ q ∈ post.head?, fp.lseq < q.lseq
  max_lt : post = [] → s.lastMaxLseq < fp.lseq

/-- The instance with `fp` inserted. -/
def insertedInst (s : RtpjbufInst) (fp : RtpPacket) (pre post : List RtpPacket) : RtpjbufInst :=
  { s with
    head := pre ++ fp :: post
    lastMaxLseq := if post = [] then fp.lseq else s.lastMaxLseq
    size := add32 s.size 1 }

/-- The run `run ++ [ifp]` at the head of the buffer of `t` is released: `f₀` is
its first frame. -/
structure Released (t : RtpjbufInst) (f₀ : RtpPacket) (run : List RtpPacket) (ifp : RtpPacket)
    (next : List RtpPacket) : Prop where
  head : t.head = run ++ ifp :: next
  first : (run ++ [ifp]).head? = some f₀
  chain : (run ++ [ifp]).IsChain Follows
  gap : ∀ n ∈ next.head?, ¬ Follows ifp n
  trigger : t.size = t.capacity ∨ (t.lastLseq ≠ lrsDefault ∧ f₀.lseq = add64 t.lastLseq 1)
  last_lt : t.lastLseq = lrsDefault ∨ (t.lastLseq < f₀.lseq ∧ t.lastLseq < ifp.lseq)
  size : if next = [] then sub32 t.size (run.length + 1) = 0 else
    0 < sub32 t.size (run.length + 1)

/-- The instance after the release. -/
def releasedInst (t : RtpjbufInst) (run : List RtpPacket) (ifp : RtpPacket)
    (next : List RtpPacket) : RtpjbufInst :=
  { t with
    head := next
    size := sub32 t.size (run.length + 1)
    lastLseq := ifp.lseq
    lastTs := ifp.info.ts }

/-- What is delivered by the release: an erasure for the gap in front of the
run, except during warm-up, and the run. -/
def releasedReady (t : RtpjbufInst) (f₀ : RtpPacket) (run : List RtpPacket) (ifp : RtpPacket) :
    List RtpFrame :=
  (if t.lastLseq = lrsDefault then [] else ersBefore t f₀) ++ (run ++ [ifp]).map .rtp

/-- The outcomes of `rtpjbuf_udp_in` for a parsed datagram `fp`, from the
instance `s` after the conversion. -/
inductive Placed (s : RtpjbufInst) (fp : RtpPacket) (drop : List RtpPacket) :
    RtpjbufInst → RjbUdpInR → Prop
  | late (hmax : s.lastMaxLseq ≠ lmsDefault) (hwarm : s.lastLseq ≠ lrsDefault)
      (hle : fp.lseq ≤ s.lastLseq) (hdist : toInt32 (sub64 s.lastLseq fp.lseq) ≠ 0) :
      Placed s fp drop { s with dropLate := add64 s.dropLate 1 } ⟨0, [], fp :: drop⟩
  | lateDup (hmax : s.lastMaxLseq ≠ lmsDefault) (hwarm : s.lastLseq ≠ lrsDefault)
      (hle : fp.lseq ≤ s.lastLseq) (hdist : toInt32 (sub64 s.lastLseq fp.lseq) = 0) :
      Placed s fp drop { s with dropDup := add64 s.dropDup 1 } ⟨0, [], fp :: drop⟩
  | dup (q : RtpPacket) (hmax : s.lastMaxLseq ≠ lmsDefault)
      (hfresh : s.lastLseq = lrsDefault ∨ s.lastLseq < fp.lseq) (hq : q ∈ s.head)
      (heq : q.lseq = fp.lseq) :
      Placed s fp drop { s with dropDup := add64 s.dropDup 1 } ⟨0, [], fp :: drop⟩
  | deliver (hhead : s.head = []) (hmax : s.lastMaxLseq = lmsDefault ∨ s.lastMaxLseq < fp.lseq)
      (hnext : (s.lastLseq ≠ lrsDefault ∧ s.lastLseq = sub64 fp.lseq 1 ∧ s.lastLseq < fp.lseq) ∨
        (s.lastLseq = lrsDefault ∧ fp.lseq = 0)) :
      Placed s fp drop
        { s with lastMaxLseq := fp.lseq, lastLseq := fp.lseq, lastTs := fp.info.ts }
        ⟨0, [.rtp fp], drop⟩
  | hold (hhead : s.head = [])
      (hmax : s.lastMaxLseq = lmsDefault ∨
        (s.lastMaxLseq < fp.lseq ∧ (s.lastLseq = lrsDefault ∨ s.lastLseq < fp.lseq)))
      (hgap : s.lastLseq ≠ lrsDefault → s.lastLseq ≠ sub64 fp.lseq 1)
      (hzero : s.lastLseq = lrsDefault → fp.lseq ≠ 0) :
      Placed s fp drop { s with lastMaxLseq := fp.lseq, head := [fp], size := 1 } ⟨0, [], drop⟩
  | insert (pre post : List RtpPacket) (hins : Inserted s fp pre post)
      (hsize : add32 s.size 1 ≠ s.capacity)
      (hgap : s.lastLseq ≠ lrsDefault →
        ∀ q ∈ (pre ++ fp :: post).head?, q.lseq ≠ add64 s.lastLseq 1) :
      Placed s fp drop (insertedInst s fp pre post) ⟨0, [], drop⟩
  | release (pre post : List RtpPacket) (f₀ : RtpPacket) (run : List RtpPacket) (ifp : RtpPacket)
      (next : List RtpPacket) (hins : Inserted s fp pre post)
      (hrel : Released (insertedInst s fp pre post) f₀ run ifp next) :
      Placed s fp drop (releasedInst (insertedInst s fp pre post) run ifp next)
        ⟨0, releasedReady (insertedInst s fp pre post) f₀ run ifp, drop⟩

theorem saveLast_eq_some {rp : RtpPacket} :
    saveLast s rp = some s' ↔
      (s.lastLseq = lrsDefault ∨ s.lastLseq < rp.lseq) ∧
        s' = { s with lastLseq := rp.lseq, lastTs := rp.info.ts } := by
  rw [saveLast, dAssert_eq_some, Option.some.injEq, eq_comm (a := s')]

theorem lmsInit_cases {warmUp : Bool} (hwarm : warmUp = decide (s.lastLseq = lrsDefault))
    (hhead : s.head = [])
    (hmax : s.lastMaxLseq = lmsDefault ∨
      (s.lastMaxLseq < fp.lseq ∧ (s.lastLseq = lrsDefault ∨ s.lastLseq < fp.lseq)))
    (h : lmsInit s fp warmUp drop = some (s', r)) : Placed s fp drop s' r := by
  subst hwarm
  have hmax' : s.lastMaxLseq = lmsDefault ∨ s.lastMaxLseq < fp.lseq := hmax.imp_right And.left
  unfold lmsInit at h
  dsimp only at h
  split at h
  · rename_i hc
    simp only [Bool.not_eq_eq_eq_not, Bool.not_true, decide_eq_false_iff_not] at hc
    obtain ⟨t, ht, heq⟩ := Option.map_eq_some_iff.mp h
    rw [saveLast_eq_some] at ht
    obtain ⟨hlt, rfl⟩ := ht
    rw [Prod.mk.injEq] at heq
    obtain ⟨rfl, rfl⟩ := heq
    exact .deliver hhead hmax' (.inl ⟨hc.1, hc.2, hlt.resolve_left hc.1⟩)
  · rename_i hnext
    simp only [Bool.not_eq_eq_eq_not, Bool.not_true, decide_eq_false_iff_not, not_and] at hnext
    split at h
    · rename_i hc
      simp only [decide_eq_true_eq] at hc
      obtain ⟨-, h⟩ := dAssert_eq_some.mp h
      obtain ⟨t, ht, heq⟩ := Option.map_eq_some_iff.mp h
      rw [saveLast_eq_some] at ht
      obtain ⟨-, rfl⟩ := ht
      rw [Prod.mk.injEq] at heq
      obtain ⟨rfl, rfl⟩ := heq
      exact .deliver hhead hmax' (.inr hc)
    · rename_i hzero
      simp only [decide_eq_true_eq, not_and] at hzero
      rw [Option.some.injEq, Prod.mk.injEq] at h
      obtain ⟨rfl, rfl⟩ := h
      exact .hold hhead hmax hnext hzero

theorem releaseHead_cases {t : RtpjbufInst} {warmUp : Bool}
    (hwarm : warmUp = decide (t.lastLseq = lrsDefault))
    (htrig : t.size = t.capacity ∨
      (t.lastLseq ≠ lrsDefault ∧ t.head.head?.map RtpPacket.lseq = some (add64 t.lastLseq 1)))
    (h : releaseHead t warmUp drop = some (s', r)) :
    ∃ f₀ run ifp next, Released t f₀ run ifp next ∧ s' = releasedInst t run ifp next ∧
      r = ⟨0, releasedReady t f₀ run ifp, drop⟩ := by
  subst hwarm
  unfold releaseHead at h
  cases hhead : t.head with
  | nil => rw [hhead] at h; cases h
  | cons f₀ rest =>
    rw [hhead] at h
    dsimp only at h
    -- from here on only what the loop guarantees about its three results is used
    obtain ⟨hlist, hchain, hgap⟩ := releaseLoop_spec rest f₀
    generalize (releaseLoop f₀ rest).1 = run at *
    generalize (releaseLoop f₀ rest).2.1 = ifp at *
    generalize (releaseLoop f₀ rest).2.2 = next at *
    -- the run starts with the head of the buffer
    have hfirst : ∃ tl, run ++ [ifp] = f₀ :: tl := by
      cases run with
      | nil => exact ⟨[], by rw [List.nil_append, List.cons.injEq] at hlist; rw [hlist.1]; rfl⟩
      | cons a as => exact ⟨as ++ [ifp], by
          rw [List.cons_append, List.cons.injEq] at hlist; rw [hlist.1]; rfl⟩
    obtain ⟨tl, htl⟩ := hfirst
    rw [dAssert_eq_some, dAssert_eq_some] at h
    obtain ⟨hlt, -, h⟩ := h
    obtain ⟨ready, hready, h⟩ := Option.bind_eq_some_iff.mp h
    obtain ⟨u, hu, h⟩ := Option.bind_eq_some_iff.mp h
    rw [saveLast_eq_some] at hu
    obtain ⟨hlast, rfl⟩ := hu
    rw [dAssert_eq_some, Option.some.injEq, Prod.mk.injEq] at h
    obtain ⟨hsize, rfl, rfl⟩ := h
    have hlen : (run ++ [ifp]).length = run.length + 1 := by simp
    rw [hlen] at hsize
    simp only [decide_eq_true_eq] at hlt hready hsize hlast
    refine ⟨f₀, run, ifp, next, ⟨?_, ?_, hchain, hgap, ?_, ?_, ?_⟩, ?_, ?_⟩
    · rw [hhead, hlist]
    · rw [htl]; rfl
    · rw [hhead] at htrig
      simpa using htrig
    · rcases hlt with hlt | hlt
      · exact .inl hlt
      · exact hlast.imp_right fun h => ⟨hlt, h⟩
    · exact hsize
    · rw [releasedInst, hlen]
    · rw [releasedReady]
      by_cases hw : t.lastLseq = lrsDefault
      · rw [if_pos hw, Option.some.injEq] at hready
        rw [if_pos hw, List.nil_append, hready]
      · rw [if_neg hw, insertErsFrame_eq, Option.some.injEq, htl, List.tail_cons] at hready
        rw [if_neg hw, htl, ← hready]
        rfl

theorem insertFrame_cases {warmUp : Bool} (hwarm : warmUp = decide (s.lastLseq = lrsDefault))
    (hne : s.head ≠ []) (hmax : s.lastMaxLseq ≠ lmsDefault)
    (hfresh : s.lastLseq = lrsDefault ∨ s.lastLseq < fp.lseq)
    (h : insertFrame s fp warmUp drop = some (s', r)) : Placed s fp drop s' r := by
  have hsplit : s.head = (s.head.takeWhile fun ifp => ifp.lseq < fp.lseq) ++
      s.head.dropWhile fun ifp => ifp.lseq < fp.lseq := List.takeWhile_append_dropWhile.symm
  have hpre : ∀ q ∈ s.head.takeWhile fun ifp => ifp.lseq < fp.lseq, q.lseq < fp.lseq := by
    intro q hq
    simpa using List.mem_takeWhile_imp hq
  have hpost : ∀ q ∈ (s.head.dropWhile fun ifp => ifp.lseq < fp.lseq).head?,
      fp.lseq ≤ q.lseq := by
    intro q hq
    have := List.head?_dropWhile_not (fun ifp : RtpPacket => decide (ifp.lseq < fp.lseq)) s.head
    rw [Option.mem_def.mp hq] at this
    simpa using this
  -- `pre` is what the loop has passed, `post` what it stopped at
  unfold insertFrame at h
  dsimp only at h
  generalize (s.head.takeWhile fun ifp => ifp.lseq < fp.lseq) = pre at *
  generalize (s.head.dropWhile fun ifp => ifp.lseq < fp.lseq) = post at *
  split at h
  · rename_i hdup
    rw [gotdup, Option.some.injEq, Prod.mk.injEq] at h
    obtain ⟨rfl, rfl⟩ := h
    obtain ⟨q, hq, heq⟩ := Option.map_eq_some_iff.mp hdup
    refine .dup q hmax hfresh ?_ heq
    rw [hsplit]
    exact List.mem_append_right _ (List.mem_of_mem_head? hq)
  · rename_i hdup
    rw [dAssert_eq_some] at h
    obtain ⟨hassert, h⟩ := h
    have hins : Inserted s fp pre post := by
      refine ⟨hsplit, hne, hmax, hfresh, hpre, fun q hq => ?_, fun hp => ?_⟩
      · refine lt_of_le_of_ne (hpost q hq) fun heq => hdup ?_
        rw [Option.mem_def.mp hq, Option.map_some, heq]
      · exact hassert.resolve_left (not_not.mpr hp)
    split at h
    · rename_i htrig
      obtain ⟨f₀, run, ifp, next, hrel, rfl, rfl⟩ :=
        releaseHead_cases (t := insertedInst s fp pre post) hwarm (by
          simp only [hwarm, Bool.not_eq_eq_eq_not, Bool.not_true,
            decide_eq_false_iff_not] at htrig
          exact htrig) h
      exact .release pre post f₀ run ifp next hins hrel
    · rename_i htrig
      subst hwarm
      simp only [Bool.not_eq_eq_eq_not, Bool.not_true, decide_eq_false_iff_not, not_or,
        not_and] at htrig
      rw [Option.some.injEq, Prod.mk.injEq] at h
      obtain ⟨rfl, rfl⟩ := h
      refine .insert pre post hins htrig.1 fun hw q hq heq => htrig.2 hw ?_
      rw [Option.mem_def.mp hq, Option.map_some, heq]

/-- **What `rtpjbuf_udp_in` can do with a parsed datagram.** -/
theorem udpInParsed_cases {info : RtpInfo} {data : ℕ}
    (h : udpInParsed s info data drop = some (s', r)) :
    Placed (assign s info.seq).1 ⟨info, (assign s info.seq).2, 0, data⟩ drop s' r := by
  unfold udpInParsed at h
  dsimp only at h
  by_cases hmax : s.lastMaxLseq = lmsDefault
  · rw [if_pos hmax, dAssert_eq_some] at h
    obtain ⟨hhead, h⟩ := h
    rw [assign, if_pos hmax]
    exact lmsInit_cases rfl hhead (.inl hmax) h
  · rw [if_neg hmax, dAssert_eq_some] at h
    obtain ⟨-, h⟩ := h
    -- the conversion changes nothing that the checks after it look at
    have hassign : assign s info.seq = convertSeq s info.seq := if_neg hmax
    have hmax' : (convertSeq s info.seq).1.lastMaxLseq ≠ lmsDefault := by
      rw [← hassign, assign_lastMaxLseq]; exact hmax
    have hwarm : decide (s.lastLseq = lrsDefault) =
        decide ((convertSeq s info.seq).1.lastLseq = lrsDefault) := by
      rw [← hassign, assign_lastLseq]
    rw [hwarm] at h
    rw [hassign]
    generalize convertSeq s info.seq = c at *
    split at h
    · rename_i hlate
      simp only [Bool.not_eq_eq_eq_not, Bool.not_true, decide_eq_false_iff_not] at hlate
      split at h
      · rename_i hdist
        rw [gotdup, Option.some.injEq, Prod.mk.injEq] at h
        obtain ⟨rfl, rfl⟩ := h
        exact .lateDup hmax' hlate.1 hlate.2 hdist
      · rename_i hdist
        rw [Option.some.injEq, Prod.mk.injEq] at h
        obtain ⟨rfl, rfl⟩ := h
        exact .late hmax' hlate.1 hlate.2 hdist
    · rename_i hlate
      simp only [Bool.not_eq_eq_eq_not, Bool.not_true, decide_eq_false_iff_not, not_and,
        not_le] at hlate
      have hfresh : c.1.lastLseq = lrsDefault ∨ c.1.lastLseq < c.2 := or_iff_not_imp_left.mpr hlate
      split at h
      · rename_i hempty
        rw [dAssert_eq_some, dAssert_eq_some] at h
        obtain ⟨-, hlt, h⟩ := h
        exact lmsInit_cases rfl hempty (.inr ⟨hlt, hfresh⟩) h
      · rename_i hempty
        exact insertFrame_cases rfl hempty hmax' hfresh h

/-! ### `rtpjbuf_flush` -/

/-- The outcome of flushing a non-empty buffer: `front` is dropped, the last
run `seg ++ [ifp]`, which starts with `f₀`, is delivered. -/
structure Flushed (s : RtpjbufInst) (front seg : List RtpPacket) (ifp f₀ : RtpPacket)
    (drop : List RtpPacket) : Prop where
  head : s.head = front ++ (seg ++ [ifp])
  first : (seg ++ [ifp]).head? = some f₀
  drop_perm : drop.Perm front
  chain : (seg ++ [ifp]).IsChain Follows
  gap : ∀ q ∈ front.getLast?, ¬ Follows q f₀
  head_gt : ∀ q ∈ s.head.head?, sub64 q.lseq 1 > s.lastLseq ∨ s.lastLseq = lrsDefault
  last_lt : s.lastLseq = lrsDefault ∨ s.lastLseq < ifp.lseq

/-- The instance after a flush that ends with `ifp`. -/
def flushedInst (s : RtpjbufInst) (ifp : RtpPacket) : RtpjbufInst :=
  { s with lastLseq := ifp.lseq, lastTs := ifp.info.ts, head := [], size := 0 }

/-- **What `rtpjbuf_flush` can do.** -/
theorem rtpjbufFlush_cases (h : rtpjbufFlush s = some (s', r)) :
    (s.head = [] ∧ s' = s ∧ r = ⟨0, [], []⟩) ∨
    ∃ front seg ifp f₀ drop, Flushed s front seg ifp f₀ drop ∧ s' = flushedInst s ifp ∧
      r = ⟨0, ersBefore s f₀ ++ (seg ++ [ifp]).map .rtp, drop⟩ := by
  unfold rtpjbufFlush at h
  cases hhead : s.head with
  | nil =>
    rw [hhead] at h
    simp only [Option.some.injEq, Prod.mk.injEq] at h
    exact .inl ⟨rfl, h.1.symm, h.2.symm⟩
  | cons fp rest =>
    rw [hhead] at h
    dsimp only at h
    rw [dAssert_eq_some] at h
    obtain ⟨hgt, h⟩ := h
    -- the loop starts with the head of the buffer as its segment
    obtain ⟨front, h1, h2, h3, h4⟩ := flushLoop_spec rest [] fp [] _ _ _ rfl (by simp)
    generalize (flushLoop [] fp rest []).1 = drop at *
    generalize (flushLoop [] fp rest []).2.1 = seg at *
    generalize (flushLoop [] fp rest []).2.2 = ifp at *
    obtain ⟨f₀, tl, htl⟩ : ∃ f₀ tl, seg ++ [ifp] = f₀ :: tl := by
      cases seg with
      | nil => exact ⟨ifp, [], rfl⟩
      | cons a as => exact ⟨a, as ++ [ifp], rfl⟩
    obtain ⟨ready, hready, h⟩ := Option.bind_eq_some_iff.mp h
    obtain ⟨u, hu, h⟩ := Option.bind_eq_some_iff.mp h
    rw [saveLast_eq_some] at hu
    obtain ⟨hlast, rfl⟩ := hu
    rw [Option.some.injEq, Prod.mk.injEq] at h
    obtain ⟨rfl, rfl⟩ := h
    rw [htl, List.headD_cons, List.tail_cons, insertErsFrame_eq, Option.some.injEq] at hready
    refine .inr ⟨front, seg, ifp, f₀, drop, ⟨?_, ?_, ?_, h3, ?_, ?_, hlast⟩, rfl, ?_⟩
    · rw [hhead, ← h1]; rfl
    · rw [htl]; rfl
    · simpa using h2
    · intro q hq
      exact h4 q hq f₀ (by rw [htl]; rfl)
    · rw [hhead]
      simpa using hgt
    · rw [htl, hready]

/-! ### Calls -/

/-- What the parser makes of a datagram, when it accepts it. -/
def parsed (buf : List UInt8) : Option RtpInfo :=
  match rtpPacketParseRaw buf .zero with
  | some (.ok, info) => some info
  | _ => none

theorem parsed_of_ok {buf : List UInt8} {info : RtpInfo}
    (h : rtpPacketParseRaw buf .zero = some (.ok, info)) : parsed buf = some info := by
  rw [parsed, h]

theorem parsed_of_error {buf : List UInt8} {e : RtpParserErr} {info : RtpInfo}
    (h : rtpPacketParseRaw buf .zero = some (e, info)) (he : e ≠ .ok) : parsed buf = none := by
  rw [parsed, h]
  cases e <;> simp_all

/-- The outcomes of a call.  `rtpjbuf_udp_in` first sees to the stale tail; the
datagram is then rejected by the parser, or converted and placed. -/
inductive Stepped (s : RtpjbufInst) : JBufCall → RtpjbufInst → RjbUdpInR → Prop
  | rejected {data : ℕ} {buf : List UInt8} (e : RtpParserErr) (hparse : parsed buf = none) :
      Stepped s (.udpIn data buf)
        { (purgeStaleTail s).2 with dropPerror := add64 (purgeStaleTail s).2.dropPerror 1 }
        ⟨e.code, [], (purgeStaleTail s).1.toList⟩
  | placed {data : ℕ} {buf : List UInt8} {s' : RtpjbufInst} {r : RjbUdpInR} (info : RtpInfo)
      (hparse : parsed buf = some info)
      (hp : Placed (assign (purgeStaleTail s).2 info.seq).1
        ⟨info, (assign (purgeStaleTail s).2 info.seq).2, 0, data⟩ (purgeStaleTail s).1.toList s' r) :
      Stepped s (.udpIn data buf) s' r
  | idle (hhead : s.head = []) : Stepped s .flush s ⟨0, [], []⟩
  | flushed (front seg : List RtpPacket) (ifp f₀ : RtpPacket) (drop : List RtpPacket)
      (hfl : Flushed s front seg ifp f₀ drop) :
      Stepped s .flush (flushedInst s ifp) ⟨0, ersBefore s f₀ ++ (seg ++ [ifp]).map .rtp, drop⟩

/-- **What a call can do.** -/
theorem jbufStep_cases {call : JBufCall} (hs : jbufStep s call = some (s', r)) :
    Stepped s call s' r := by
  cases call with
  | udpIn data buf =>
    rw [jbufStep, rtpjbufUdpIn] at hs
    obtain ⟨⟨e, info⟩, hparse, hs⟩ := Option.bind_eq_some_iff.mp hs
    dsimp only at hs
    split at hs
    · rename_i he
      rw [Option.some.injEq, Prod.mk.injEq] at hs
      obtain ⟨rfl, rfl⟩ := hs
      exact .rejected e (parsed_of_error hparse he)
    · rename_i he
      rw [not_not] at he
      subst he
      exact .placed info (parsed_of_ok hparse) (udpInParsed_cases hs)
  | flush =>
    rcases rtpjbufFlush_cases hs with ⟨hhead, rfl, rfl⟩ | ⟨front, seg, ifp, f₀, drop, hfl, rfl, rfl⟩
    · exact .idle hhead
    · exact .flushed front seg ifp f₀ drop hfl

end Rtp
