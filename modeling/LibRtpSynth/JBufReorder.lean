/-
Bounded reordering is fully undone.

Consecutive numbers arrive on a fresh buffer of capacity `c`, each once, in an
order that is bounded by `c - 2` (`Reordering.Bounded`).  The buffer goes
through two phases (`Phase`): it collects frames without delivering any until
it is full, and then holds back only what waits for the next number.  In
both phases nothing is purged and no number is lost, because a number that is
still to come lies behind at most `c - 2` larger ones; the extension of the
16-bit numbers is exact because the next number is near the largest one so
far.

* `ReorderInv.step` — one arrival;
* `jbufRun_reorders` — a whole stream followed by a flush.
-/
import LibRtpSynth.JBufDelivery
import LibRtpSynth.JBufExtension
import LibRtpSynth.Reordering

open CWords Runs Reordering
open scoped List

namespace Rtp

variable {s s' : RtpjbufInst} {r : RjbUdpInR} {fp : RtpPacket} {drop : List RtpPacket}
  {c a n x : ℕ} {ds : List (ℕ × RtpInfo)} {p : List ℕ} {outs : List RjbUdpInR}

/-! ### Runs of consecutive packets -/

/-- The numbers of a run of consecutive packets. -/
theorem lseq_of_chain : ∀ {tl : List RtpPacket} {f₀ : RtpPacket}, (f₀ :: tl).IsChain Follows →
    (∀ p ∈ f₀ :: tl, p.lseq < lmsDefault) →
    (f₀ :: tl).map RtpPacket.lseq = List.range' f₀.lseq (tl.length + 1) := by
  intro tl
  induction tl with
  | nil => intro f₀ _ _; rfl
  | cons f₁ tl ih =>
    intro f₀ hchain hlt
    obtain ⟨hfollows, hchain⟩ := List.isChain_cons_cons.mp hchain
    rw [follows_iff (hlt f₀ List.mem_cons_self)] at hfollows
    have htl := ih hchain fun p hp => hlt p (List.mem_cons_of_mem _ hp)
    rw [List.map_cons, htl, hfollows, List.length_cons]
    rfl

/-- Packets with consecutive numbers form a run. -/
theorem chain_of_lseq {l : List RtpPacket} {k : ℕ} (h : l.map RtpPacket.lseq = List.range' a k)
    (hlt : ∀ p ∈ l, p.lseq < lmsDefault) : l.IsChain Follows := by
  have hchain : (l.map RtpPacket.lseq).IsChain (fun i j => j = i + 1) := by
    rw [h]
    exact List.isChain_range' a k 1
  rw [List.isChain_map] at hchain
  exact hchain.imp_of_mem_imp fun p q hp _ hpq => (follows_iff (hlt p hp)).mpr hpq

/-! ### The invariant -/

/-- What is known about the numbers `p` that have arrived so far, of the numbers
`a, …, a + n - 1`. -/
structure Arrived (c a n : ℕ) (p : List ℕ) : Prop where
  bound : a + n < 2 ^ 63
  mem : ∀ y ∈ p, a ≤ y ∧ y < a + n
  missing : ∀ y, a ≤ y → y < a + n → y ∉ p → p.countP (y < ·) ≤ c - 2

/-- The two phases of the buffer, for the delivered numbers `ds`: everything is
held; or the numbers from `a` on were delivered, up to a missing one. -/
inductive Phase (c a : ℕ) (p : List ℕ) (s : RtpjbufInst) (ds : List ℕ) : Prop
  | collect (hlast : s.lastLseq = lrsDefault) (hds : ds = []) (hage : ∀ f ∈ s.head, f.jbcnt = 0)
      (hlen : p.length < c)
  | deliver (k : ℕ) (hk : 0 < k) (hlast : s.lastLseq + 1 = a + k) (hds : ds = List.range' a k)

/-- The invariant while the numbers `p` arrive, with the datagrams `ds`. -/
structure ReorderInv (c a : ℕ) (ds : List (ℕ × RtpInfo)) (p : List ℕ) (outs : List RjbUdpInR)
    (s : RtpjbufInst) : Prop where
  inv : JInv s
  capacity_eq : s.capacity = c
  ext : Extended p s
  length_eq : ds.length = p.length
  places : (places s outs).map RtpPacket.numbered ~ ds.zip p
  dropped : dropped outs = []
  noErs : ∀ f ∈ stream outs, f.isRtp
  phase : Phase c a p s ((delivered outs).map RtpPacket.lseq)

/-- What has arrived is held or was delivered. -/
theorem ReorderInv.perm (h : ReorderInv c a ds p outs s) :
    lseqs s ++ (delivered outs).map RtpPacket.lseq ~ p := by
  have hp := h.places.map Prod.snd
  rw [List.map_map, List.map_snd_zip h.length_eq.ge] at hp
  rwa [Rtp.places, h.dropped, List.append_nil, List.map_append] at hp

/-- The held numbers while frames are delivered: few, and all behind the missing
one. -/
theorem ReorderInv.held (h : ReorderInv c a ds p outs s) (hc : 3 ≤ c) (harr : Arrived c a n p)
    {k : ℕ} (hk : 0 < k) (hlast : s.lastLseq + 1 = a + k)
    (hds : (delivered outs).map RtpPacket.lseq = List.range' a k) :
    s.lastLseq ≠ lrsDefault ∧ (∀ y ∈ lseqs s, a + k < y) ∧ a + k ∉ p ∧
      (lseqs s).length ≤ c - 2 := by
  have hgap := h.inv.headGap (h.capacity_eq ▸ hc)
  have hperm := h.perm
  rw [hds] at hperm
  -- the last delivered number is one of those that have arrived
  have hwarm : s.lastLseq ≠ lrsDefault := by
    have hmem : s.lastLseq ∈ p := by
      refine hperm.mem_iff.mp (List.mem_append_right _ ?_)
      rw [List.mem_range'_1]
      omega
    have h1 := harr.mem _ hmem
    have h2 := harr.bound
    exact (lt_lmsDefault (by omega)).ne
  have hgt : ∀ y ∈ lseqs s, a + k < y := by
    intro y hy
    have := h.inv.last_add_two_le hgap hwarm y hy
    omega
  -- what has arrived is held, hence beyond `a + k`, or delivered, hence before it
  have hmiss : a + k ∉ p := by
    intro hmem
    rcases List.mem_append.mp (hperm.mem_iff.mpr hmem) with hmem | hmem
    · exact absurd (hgt _ hmem) (by omega)
    · rw [List.mem_range'_1] at hmem
      omega
  refine ⟨hwarm, hgt, hmiss, ?_⟩
  -- all held numbers are larger than the missing one
  by_cases hnil : lseqs s = []
  · rw [hnil]; simp
  · obtain ⟨y, hy⟩ := List.exists_mem_of_ne_nil _ hnil
    have hya := harr.mem y (hperm.mem_iff.mp (List.mem_append_left _ hy))
    have hcount := harr.missing (a + k) (by omega) (by have := hgt y hy; omega) hmiss
    have hall : (lseqs s).countP (a + k < ·) = (lseqs s).length := by
      rw [List.countP_eq_length]
      intro y hy
      simpa using hgt y hy
    rw [← hperm.countP_eq, List.countP_append, hall] at hcount
    omega

/-! ### One arrival -/

/-- Far from full the purge does nothing at all. -/
theorem purgeStaleTail_of_lt (h : JInv s) (hlen : s.head.length + 1 < s.capacity) :
    purgeStaleTail s = (none, s) := by
  rcases purgeStaleTail_cases s with ⟨heq, -⟩ | ⟨prev, tail, -, hsize, -⟩
  · exact heq
  · have hlt := h.size.capacity_lt
    rw [h.size.size, sub32_of_le hlt (by omega)] at hsize
    omega

/-- Nothing is purged. -/
theorem ReorderInv.purges (h : ReorderInv c a ds p outs s) (hc : 3 ≤ c) (harr : Arrived c a n p) :
    (purgeStaleTail s).1 = none ∧
      (s.head.length + 1 < c → purgeStaleTail s = (none, s)) := by
  refine ⟨?_, fun hlt => purgeStaleTail_of_lt h.inv (by rw [h.capacity_eq]; exact hlt)⟩
  cases h.phase with
  | collect hlast hds hage hlen =>
    rcases purgeStaleTail_cases s with ⟨heq, -⟩ | ⟨prev, tail, hhead, -, ⟨-, heq⟩ | ⟨hold, -⟩⟩
    · rw [heq]
    · rw [heq]
    · -- a frame has been the tail for one call only
      have htail : tail.jbcnt = 0 := hage tail (by rw [hhead]; simp)
      have hone : tail.aged.jbcnt = 1 := by
        show add64 tail.jbcnt 1 = 1
        rw [htail]; rfl
      rw [h.capacity_eq] at hold
      omega
  | deliver k hk hlast hds =>
    obtain ⟨-, -, -, hlen⟩ := h.held hc harr hk hlast hds
    rw [lseqs_length] at hlen
    rw [purgeStaleTail_of_lt h.inv (by rw [h.capacity_eq]; omega)]

/-- The new packet is neither late nor a duplicate. -/
theorem ReorderInv.fresh (h : ReorderInv c a ds p outs s) (hx : x ∉ p) (hxa : a ≤ x) :
    x ∉ lseqs s ∧ (s.lastLseq ≠ lrsDefault → s.lastLseq < x) := by
  have hperm := h.perm
  refine ⟨fun hmem => hx (hperm.mem_iff.mp (List.mem_append_left _ hmem)), fun hwarm => ?_⟩
  cases h.phase with
  | collect hlast => exact absurd hlast hwarm
  | deliver k hk hlast hds =>
    by_contra hle
    refine hx (hperm.mem_iff.mp (List.mem_append_right _ ?_))
    rw [hds, List.mem_range'_1]
    omega

/-- The numbers of a released run, which starts with the smallest held one. -/
theorem Released.numbers {t : RtpjbufInst} {f₀ ifp : RtpPacket} {run next : List RtpPacket}
    (hrel : Released t f₀ run ifp next) (hasc : (lseqs t).Pairwise (· < ·))
    (hlt : ∀ n ∈ lseqs t, n < lmsDefault) :
    (run ++ [ifp]).map RtpPacket.lseq = List.range' f₀.lseq (run.length + 1) ∧
    ifp.lseq = f₀.lseq + run.length ∧ f₀.lseq ∈ lseqs t ∧ ∀ y ∈ lseqs t, f₀.lseq ≤ y := by
  obtain ⟨tl, htl⟩ := List.head?_eq_some_iff.mp hrel.first
  have hsplit : t.head = f₀ :: (tl ++ next) := by
    rw [hrel.head, List.append_cons, htl]; rfl
  have hls : lseqs t = f₀.lseq :: (tl ++ next).map RtpPacket.lseq := by
    rw [lseqs, hsplit, List.map_cons]
  have hnums : (run ++ [ifp]).map RtpPacket.lseq = List.range' f₀.lseq (run.length + 1) := by
    have hlen := congrArg List.length htl
    rw [List.length_append, List.length_singleton, List.length_cons] at hlen
    have hchain := hrel.chain
    rw [htl] at hchain ⊢
    rw [lseq_of_chain hchain, hlen]
    intro p hp
    refine hlt p.lseq (List.mem_map_of_mem ?_)
    rw [hsplit, ← List.cons_append]
    exact List.mem_append_left _ hp
  refine ⟨hnums, ?_, by rw [hls]; exact List.mem_cons_self, ?_⟩
  · rw [List.map_append, List.map_singleton, List.range'_concat] at hnums
    have hlast := (List.append_inj' hnums rfl).2
    simpa using hlast
  · intro y hy
    rw [hls] at hy hasc
    rcases List.mem_cons.mp hy with rfl | hy
    · exact le_refl _
    · exact ((List.pairwise_cons.mp hasc).1 y hy).le

/-- A full buffer that has delivered nothing holds the first number. -/
theorem Arrived.first_mem (harr : Arrived c a n p) (hc : 3 ≤ c) (hlen : p.length = c) : a ∈ p := by
  by_contra hmiss
  obtain ⟨y, hy⟩ := List.exists_mem_of_length_pos (by omega : 0 < p.length)
  have hya := harr.mem y hy
  have hcount := harr.missing a le_rfl (by omega) hmiss
  -- otherwise all `c` numbers are larger than a missing one
  have hall : p.countP (a < ·) = p.length := by
    rw [List.countP_eq_length]
    intro z hz
    have h1 := (harr.mem z hz).1
    have h2 : z ≠ a := fun heq => hmiss (heq ▸ hz)
    simp only [decide_eq_true_eq]
    omega
  omega

/-- What one arrival does: nothing is dropped, no erasure is delivered, and the
phase goes on. -/
def Continues (c a : ℕ) (p ds : List ℕ) (s' : RtpjbufInst) (r : RjbUdpInR) : Prop :=
  r.drop = [] ∧ (∀ f ∈ r.ready, f.isRtp) ∧
    Phase c a p s' (ds ++ (rtps r.ready).map RtpPacket.lseq)

/-- A released run that starts with the number delivery has come to carries the
delivered numbers on, with no erasure in front. -/
theorem Released.continues {t : RtpjbufInst} {f₀ ifp : RtpPacket} {run next : List RtpPacket}
    {k : ℕ} (hrel : Released t f₀ run ifp next) (hasc : (lseqs t).Pairwise (· < ·))
    (hlt : ∀ n ∈ lseqs t, n < lmsDefault) (h₀ : f₀.lseq = a + k)
    (hnext : t.lastLseq = lrsDefault ∨ add64 t.lastLseq 1 = f₀.lseq) :
    Continues c a p (List.range' a k) (releasedInst t run ifp next)
      ⟨0, releasedReady t f₀ run ifp, []⟩ := by
  obtain ⟨hnums, hifp, -, -⟩ := hrel.numbers hasc hlt
  have hready : releasedReady t f₀ run ifp = (run ++ [ifp]).map .rtp := by
    rw [releasedReady]
    rcases hnext with hwarm | hnext
    · rw [if_pos hwarm, List.nil_append]
    · rcases ersBefore_cases t f₀ with ⟨-, hers⟩ | ⟨hne, -⟩
      · rw [hers, ite_self, List.nil_append]
      · exact absurd hnext hne
  rw [h₀] at hnums hifp
  refine ⟨rfl, ?_, .deliver (k + (run.length + 1)) (by omega) ?_ ?_⟩
  · rw [hready]
    intro f hf
    obtain ⟨q, -, rfl⟩ := List.mem_map.mp hf
    rfl
  · show ifp.lseq + 1 = a + (k + (run.length + 1))
    omega
  · rw [hready, rtps_map_rtp, hnums]
    simp

/-- An arrival while everything is held. -/
theorem ReorderInv.collect {t : RtpjbufInst} (h : ReorderInv c a ds p outs s) (hc : 3 ≤ c)
    (harr : Arrived c a n (p ++ [x])) (hx : x ∉ p) (hlast : s.lastLseq = lrsDefault)
    (hds : (delivered outs).map RtpPacket.lseq = []) (hage : ∀ f ∈ s.head, f.jbcnt = 0)
    (hlen : p.length < c) (ht : JInv t) (hls : lseqs t = lseqs s)
    (htlast : t.lastLseq = s.lastLseq) (htcap : t.capacity = c)
    (hthead : s.head.length + 1 < c → t.head = s.head) (hfp : fp.lseq = x) (hcnt : fp.jbcnt = 0)
    (hp : Placed t fp [] s' r) :
    Continues c a (p ++ [x]) ((delivered outs).map RtpPacket.lseq) s' r := by
  have hperm := h.perm
  rw [hds, List.append_nil] at hperm
  have hxa := harr.mem x (by simp)
  have hxlt : fp.lseq < lmsDefault := by
    have := harr.bound
    exact lt_lmsDefault (by omega)
  have hcount : s.head.length = p.length := by rw [← lseqs_length, hperm.length_eq]
  have hsize : t.size = p.length := by
    rw [ht.size.size, ← lseqs_length, hls, lseqs_length, hcount]
  have hwarm : t.lastLseq = lrsDefault := htlast.trans hlast
  have hadd : add32 t.size 1 = p.length + 1 := by
    have := ht.size.capacity_lt
    rw [hsize, add32]
    omega
  rw [hds]
  cases hp with
  | late _ hw | lateDup _ hw => exact absurd hwarm hw
  | dup q _ _ hq heq =>
    have hmem : q.lseq ∈ lseqs t := List.mem_map_of_mem hq
    rw [hls, heq, hfp] at hmem
    exact absurd hmem (h.fresh hx hxa.1).1
  | deliver hhead hmax hnext =>
    have hzero := (hnext.resolve_left fun hc => hc.1 hwarm).2
    refine ⟨rfl, by simp [RtpFrame.isRtp], .deliver 1 Nat.one_pos ?_ ?_⟩
    · show fp.lseq + 1 = a + 1
      omega
    · show [fp.lseq] = [a]
      rw [hfp, show x = a by omega]
  | hold hhead =>
    have hnil : p.length = 0 := by
      rw [← hcount, ← lseqs_length, ← hls, lseqs_length, hhead]; rfl
    refine ⟨rfl, by simp, .collect hwarm rfl ?_ ?_⟩
    · intro f hf
      rw [List.mem_singleton.mp hf]
      exact hcnt
    · rw [List.length_append, List.length_singleton]
      omega
  | insert pre post hins hne =>
    rw [hadd, htcap] at hne
    refine ⟨rfl, by simp, .collect hwarm rfl ?_ ?_⟩
    · intro f hf
      rw [← hthead (by omega), hins.head] at hage
      rcases List.mem_append.mp hf with hf | hf
      · exact hage f (List.mem_append_left _ hf)
      · rcases List.mem_cons.mp hf with rfl | hf
        · exact hcnt
        · exact hage f (List.mem_append_right _ hf)
    · rw [List.length_append, List.length_singleton]
      omega
  | release pre post f₀ run ifp next hins hrel =>
    obtain ⟨hasc, hlt, -⟩ := hins.inv ht hxlt
    obtain ⟨-, -, hmem₀, hmin⟩ := hrel.numbers hasc hlt
    -- during warm-up only a full buffer is released
    have hfull : (p ++ [x]).length = c := by
      have hsz : add32 t.size 1 = t.capacity := hrel.trigger.resolve_right fun hc => hc.1 hwarm
      rw [List.length_append, List.length_singleton, ← hadd, hsz, htcap]
    have hmem : ∀ y, y ∈ lseqs (insertedInst t fp pre post) ↔ y ∈ p ++ [x] := by
      intro y
      have hold : y ∈ lseqs s ↔ y ∈ p := hperm.mem_iff
      rw [← hls, lseqs, hins.head] at hold
      rw [lseqs_insertedInst, hfp, List.mem_append, List.mem_append, List.mem_cons, List.mem_singleton, ← hold,
        List.map_append, List.mem_append]
      tauto
    -- the first number has arrived, so the run starts with it
    have h₀ : f₀.lseq = a := by
      have h1 := hmin a ((hmem a).mpr (harr.first_mem hc hfull))
      have h2 := (harr.mem _ ((hmem _).mp hmem₀)).1
      omega
    exact hrel.continues (k := 0) hasc hlt h₀ (.inl hwarm)

/-- An arrival once numbers were delivered. -/
theorem ReorderInv.deliver {t : RtpjbufInst} {k : ℕ} (h : ReorderInv c a ds p outs s) (hc : 3 ≤ c)
    (harr : Arrived c a n p) (hx : x ∉ p) (hxa : a ≤ x) (hxlt : x < 2 ^ 63) (hk : 0 < k)
    (hlast : s.lastLseq + 1 = a + k)
    (hds : (delivered outs).map RtpPacket.lseq = List.range' a k) (ht : JInv t)
    (hls : lseqs t = lseqs s) (htlast : t.lastLseq = s.lastLseq) (htcap : t.capacity = c)
    (hfp : fp.lseq = x) (hp : Placed t fp [] s' r) :
    Continues c a (p ++ [x]) ((delivered outs).map RtpPacket.lseq) s' r := by
  obtain ⟨hwarm, -, -, hlen⟩ := h.held hc harr hk hlast hds
  obtain ⟨hnew, hlate⟩ := h.fresh hx hxa
  have hlate := hlate hwarm
  have hwarm' : t.lastLseq ≠ lrsDefault := by rw [htlast]; exact hwarm
  have hfplt : fp.lseq < lmsDefault := hfp ▸ lt_lmsDefault hxlt
  have hadd : add64 t.lastLseq 1 = a + k := by
    rw [htlast, add64_of_lt (by omega), hlast]
  rw [hds]
  cases hp with
  | late _ _ hle | lateDup _ _ hle =>
    rw [hfp, htlast] at hle
    omega
  | dup q _ _ hq heq =>
    have hmem : q.lseq ∈ lseqs t := List.mem_map_of_mem hq
    rw [hls, heq, hfp] at hmem
    exact absurd hmem hnew
  | deliver hhead hmax hnext =>
    have hnext := hnext.resolve_right fun hc => hwarm' hc.1
    -- the number that was missing
    have hxk : x = a + k := by
      have hsub := hnext.2.1
      rw [hfp, htlast, sub64_of_le (by omega) (by omega)] at hsub
      omega
    refine ⟨rfl, by simp [RtpFrame.isRtp], .deliver (k + 1) (Nat.succ_pos _) ?_ ?_⟩
    · show fp.lseq + 1 = a + (k + 1)
      omega
    · show List.range' a k ++ [fp.lseq] = List.range' a (k + 1)
      rw [List.range'_concat, hfp, hxk, Nat.one_mul]
  | hold hhead => exact ⟨rfl, by simp, .deliver k hk (by rw [← hlast, ← htlast]) (by simp [rtps])⟩
  | insert pre post hins =>
    exact ⟨rfl, by simp, .deliver k hk (by rw [← hlast, ← htlast]; rfl) (by simp [rtps])⟩
  | release pre post f₀ run ifp next hins hrel =>
    obtain ⟨hasc, hlt, -⟩ := hins.inv ht hfplt
    have h₀ : f₀.lseq = a + k := by
      rcases hrel.trigger with hsize | ⟨-, hfirst⟩
      · -- the buffer is not full
        have hsize : add32 t.size 1 = t.capacity := hsize
        have hcap := ht.size.capacity_lt
        rw [ht.size.size, ← lseqs_length, hls, htcap, add32] at hsize
        omega
      · exact hfirst.trans hadd
    exact hrel.continues hasc hlt h₀ (.inr (hadd.trans h₀.symm))

/-- **One arrival.** -/
theorem ReorderInv.step (h : ReorderInv c a ds p outs s) (hc : 3 ≤ c) (harr : Arrived c a n p)
    (harr' : Arrived c a n (p ++ [x])) (hx : x ∉ p) (hwin : InWindow p x) {data : ℕ}
    {buf : List UInt8} {info : RtpInfo} (hparse : parsed buf = some info)
    (hseq : info.seq.toNat = x % 65536) :
    ∃ s' r, jbufStep s (.udpIn data buf) = some (s', r) ∧
      ReorderInv c a (ds ++ [(data, info)]) (p ++ [x]) (outs ++ [r]) s' := by
  have hs3 : 3 ≤ s.capacity := h.capacity_eq ▸ hc
  have hgap := h.inv.headGap hs3
  obtain ⟨hnone, hsame⟩ := h.purges hc harr
  have hacc : (JBufCall.udpIn data buf).accepted = some (data, info) := by
    rw [JBufCall.accepted, hparse]; rfl
  have hpurges : (JBufCall.udpIn data buf).purgesNothing s := hnone
  obtain ⟨s', r, hs, hinv', -⟩ := jbufStep_total h.inv hgap
    (h.ext.notSentinel hpurges hacc hwin hseq) (h.inv.fresh hs3 _)
  obtain ⟨hext, hnew⟩ := h.ext.step h.inv hgap hpurges hacc hwin hseq hs
  have hxa := harr'.mem x (by simp)
  -- the purge and the conversion leave the list, so the two phases apply
  have hcont : Continues c a (p ++ [x]) ((delivered outs).map RtpPacket.lseq) s' r := by
    cases jbufStep_cases hs with
    | rejected e hparse' =>
      rw [hparse'] at hparse
      cases hparse
    | placed info' hparse' hplaced =>
      rw [hparse', Option.some.injEq] at hparse
      subst hparse
      rw [hnone, Option.toList_none] at hplaced
      have hls : lseqs (assign (purgeStaleTail s).2 info'.seq).1 = lseqs s := by
        rw [lseqs_assign]
        rcases purgeStaleTail_lseqs h.inv with ⟨hls, -, -⟩ | ⟨q, _, hsome, -⟩
        · exact hls
        · rw [hnone] at hsome
          cases hsome
      have hlast : (assign (purgeStaleTail s).2 info'.seq).1.lastLseq = s.lastLseq := by
        rw [assign_lastLseq, purgeStaleTail_lastLseq]
      have hcap : (assign (purgeStaleTail s).2 info'.seq).1.capacity = c := by
        rw [assign_capacity, purgeStaleTail_capacity, h.capacity_eq]
      have hnum := ((h.ext.purge hnone).assign hwin hseq).1
      cases h.phase with
      | collect hw hds hage hlen =>
        refine h.collect hc harr' hx hw hds hage hlen (h.inv.purge.assign _) hls hlast hcap
          (fun hlt => ?_) hnum rfl hplaced
        rw [assign_head, hsame hlt]
      | deliver k hk hw hds =>
        exact h.deliver hc harr hx hxa.1 hwin.1 hk hw hds (h.inv.purge.assign _) hls hlast hcap
          hnum hplaced
  obtain ⟨hdrop, hers, hphase⟩ := hcont
  refine ⟨s', r, hs, hinv', (jbufStep_capacity hs).trans h.capacity_eq, hext, ?_, ?_, ?_, ?_, ?_⟩
  · rw [List.length_append, List.length_append, h.length_eq]; rfl
  · have hplaces := places_step RtpPacket.numbered (fun _ => rfl) outs hs
    rw [hnew] at hplaces
    rw [List.zip_append h.length_eq]
    exact hplaces.trans (h.places.append_right _)
  · have := h.dropped
    simp only [Rtp.dropped, List.flatMap_append, List.flatMap_singleton] at this ⊢
    rw [this, hdrop]; rfl
  · intro f hf
    rw [stream, List.flatMap_append, List.flatMap_singleton] at hf
    rcases List.mem_append.mp hf with hf | hf
    · exact h.noErs f hf
    · exact hers f hf
  · rw [delivered, List.flatMap_append, List.flatMap_singleton, List.map_append]
    exact hphase

/-! ### The flush at the end -/

/-- Once every number has arrived, the flush delivers what is left. -/
theorem ReorderInv.flush (h : ReorderInv c a ds p outs s) (hc : 3 ≤ c) (harr : Arrived c a n p)
    (hall : p ~ List.range' a n) :
    ∃ s' r, jbufStep s .flush = some (s', r) ∧ r.drop = [] ∧
      (delivered (outs ++ [r])).map RtpPacket.lseq = List.range' a n := by
  obtain ⟨s', r, hs⟩ := rtpjbufFlush_total h.inv (h.inv.headGap (h.capacity_eq ▸ hc))
  have hs : jbufStep s .flush = some (s', r) := hs
  refine ⟨s', r, hs, ?_⟩
  have hperm := h.perm
  rw [delivered, List.flatMap_append, List.flatMap_singleton, List.map_append, ← delivered]
  cases h.phase with
  | collect hlast hds hage hlen =>
    rw [hds, List.append_nil] at hperm
    have hls : lseqs s = List.range' a n :=
      (hperm.trans hall).eq_of_pairwise (fun _ _ _ _ h1 h2 => absurd h1 (by omega)) h.inv.asc
        List.pairwise_lt_range'
    rw [hds]
    cases jbufStep_cases hs with
    | idle hhead =>
      rw [lseqs, hhead] at hls
      exact ⟨rfl, hls⟩
    | flushed front seg ifp f₀ drop hfl =>
      -- the held frames are one run, so nothing is in front of it
      have hchain : s.head.IsChain Follows :=
        chain_of_lseq hls fun q hq => h.inv.lt _ (List.mem_map_of_mem hq)
      have hfront : front = [] := by
        rcases List.eq_nil_or_concat front with hnil | ⟨front', q, hconcat⟩
        · exact hnil
        · obtain ⟨tl, htl⟩ := List.head?_eq_some_iff.mp hfl.first
          rw [List.concat_eq_append] at hconcat
          rw [hfl.head, hconcat, htl, List.append_assoc, List.singleton_append,
            List.isChain_append_cons_cons] at hchain
          exact absurd hchain.2.1 (hfl.gap q (by rw [hconcat]; simp))
      subst hfront
      refine ⟨List.perm_nil.mp hfl.drop_perm, ?_⟩
      have hhead := hfl.head
      rw [List.nil_append] at hhead
      rw [rtps_append, rtps_ersBefore, rtps_map_rtp, List.nil_append, List.nil_append, ← hhead]
      exact hls
  | deliver k hk hlast hds =>
    obtain ⟨-, hgt, hmiss, -⟩ := h.held hc harr hk hlast hds
    rw [hds] at hperm ⊢
    have hlen := (hperm.trans hall).length_eq
    rw [List.length_append, List.length_range', List.length_range'] at hlen
    -- no number is missing, so all were delivered before
    have hkn : n ≤ k := by
      by_contra hlt
      exact hmiss (hall.mem_iff.mpr (List.mem_range'_1.mpr ⟨by omega, by omega⟩))
    have hempty : s.head = [] := by
      rw [← lseqs_eq_nil, ← List.length_eq_zero_iff]
      omega
    cases jbufStep_cases hs with
    | idle =>
      refine ⟨rfl, ?_⟩
      rw [show k = n by omega]
      simp [rtps]
    | flushed front seg ifp f₀ drop hfl =>
      have hhead := hfl.head
      rw [hempty] at hhead
      simp at hhead

/-! ### Streams -/

/-- A datagram kept at `data`, with the extended number that it carries the low
sixteen bits of. -/
structure Arrival where
  data : ℕ
  buf : List UInt8
  lseq : ℕ

/-- The call that presents the datagram. -/
def Arrival.call (g : Arrival) : JBufCall := .udpIn g.data g.buf

/-- The datagram is valid and has the number's low sixteen bits. -/
def Arrival.Carries (g : Arrival) : Prop :=
  ∃ info, parsed g.buf = some info ∧ info.seq.toNat = g.lseq % 65536

theorem le_maxOf {y : ℕ} (hy : y ∈ p) : y ≤ maxOf p := by
  induction p using List.reverseRecOn with
  | nil => cases hy
  | append_singleton p z ih =>
    rw [maxOf_concat]
    rcases List.mem_append.mp hy with hy | hy
    · exact (ih hy).trans (le_max_left _ _)
    · rw [List.mem_singleton.mp hy]
      exact le_max_right _ _

theorem maxOf_mem (hp : p ≠ []) : maxOf p ∈ p := by
  induction p using List.reverseRecOn with
  | nil => exact absurd rfl hp
  | append_singleton p z ih =>
    rw [maxOf_concat]
    by_cases hnil : p = []
    · subst hnil
      rw [show maxOf [] = 0 from rfl, Nat.zero_max]
      exact List.mem_singleton_self z
    · rcases max_choice (maxOf p) z with hmax | hmax
      · rw [hmax]
        exact List.mem_append_left _ (ih hnil)
      · rw [hmax]
        exact List.mem_append_right _ (List.mem_singleton_self z)

/-- What has arrived after a prefix of a boundedly reordered stream. -/
theorem arrived_of_bounded {q : List ℕ} (hb : Bounded (c - 2) (p ++ q))
    (hperm : p ++ q ~ List.range' a n) (hbound : a + n < 2 ^ 63) : Arrived c a n p where
  bound := hbound
  mem y hy := by
    have := hperm.mem_iff.mp (List.mem_append_left q hy)
    rwa [List.mem_range'_1] at this
  missing y h1 h2 hy := by
    have hmem := hperm.mem_iff.mpr (List.mem_range'_1.mpr ⟨h1, h2⟩)
    exact hb.countP_missing ((List.mem_append.mp hmem).resolve_left hy)

theorem inWindow_of_bounded {q : List ℕ} (hc : c ≤ 256) (hb : Bounded (c - 2) (p ++ x :: q))
    (hperm : p ++ x :: q ~ List.range' a n) (hbound : a + n < 2 ^ 63)
    (hfirst : ∀ y ∈ (p ++ x :: q).head?, y < 65536) : InWindow p x := by
  have hx := List.mem_range'_1.mp (hperm.mem_iff.mp (by simp : x ∈ p ++ x :: q))
  refine ⟨by omega, ?_⟩
  by_cases hnil : p = []
  · subst hnil
    rw [if_pos rfl]
    have := hfirst x rfl
    omega
  · rw [if_neg hnil]
    obtain ⟨h1, h2⟩ := hb.near hperm (maxOf_mem hnil) fun y hy => le_maxOf hy
    omega

/-- The invariant after every prefix of the stream. -/
theorem reorderInv_of_run (hc3 : 3 ≤ c) (hc : c ≤ 256) (hbound : a + n < 2 ^ 63)
    {grams : List Arrival} (hgrams : ∀ g ∈ grams, g.Carries)
    (hperm : grams.map Arrival.lseq ~ List.range' a n)
    (hb : Bounded (c - 2) (grams.map Arrival.lseq))
    (hfirst : ∀ y ∈ (grams.map Arrival.lseq).head?, y < 65536) :
    ∀ pre, pre <+: grams → ∃ s outs,
      run jbufStep (rtpjbufCtor c) (pre.map Arrival.call) = some (s, outs) ∧
      ReorderInv c a ((pre.map Arrival.call).filterMap JBufCall.accepted)
        (pre.map Arrival.lseq) outs s := by
  intro pre
  -- over the prefixes, because what is still to come bounds what can have arrived
  induction pre using List.reverseRecOn with
  | nil =>
    intro _
    refine ⟨_, _, rfl, jInv_ctor (by omega), rfl, ⟨rfl, rfl, rfl, by decide⟩, rfl,
      List.Perm.refl _, rfl, ?_, .collect rfl rfl ?_ ?_⟩
    · intro f hf
      cases hf
    · intro f hf
      cases hf
    · show 0 < c
      omega
  | append_singleton pre g ih =>
    intro hpre
    obtain ⟨post, hpost⟩ := hpre
    obtain ⟨s, outs, hrun, hinv⟩ := ih ⟨g :: post, by rw [← hpost]; simp⟩
    have hsplit : grams.map Arrival.lseq =
        pre.map Arrival.lseq ++ g.lseq :: post.map Arrival.lseq := by
      rw [← hpost]; simp
    have hsplit' : grams.map Arrival.lseq =
        (pre.map Arrival.lseq ++ [g.lseq]) ++ post.map Arrival.lseq := by
      rw [hsplit]; simp
    obtain ⟨info, hparse, hseq⟩ := hgrams g (by rw [← hpost]; simp)
    have hnodup : (pre.map Arrival.lseq ++ g.lseq :: post.map Arrival.lseq).Nodup := by
      rw [← hsplit]
      exact hperm.nodup_iff.mpr List.nodup_range'
    have hx : g.lseq ∉ pre.map Arrival.lseq := fun hmem =>
      List.disjoint_of_nodup_append hnodup hmem List.mem_cons_self
    have harr : Arrived c a n (pre.map Arrival.lseq) :=
      arrived_of_bounded (by rw [← hsplit]; exact hb) (by rw [← hsplit]; exact hperm) hbound
    have harr' : Arrived c a n (pre.map Arrival.lseq ++ [g.lseq]) :=
      arrived_of_bounded (by rw [← hsplit']; exact hb) (by rw [← hsplit']; exact hperm) hbound
    rw [hsplit] at hb hperm hfirst
    obtain ⟨s', r, hs, hinv'⟩ := hinv.step hc3 harr harr' hx
      (inWindow_of_bounded hc hb hperm hbound hfirst) hparse hseq
    refine ⟨s', outs ++ [r], ?_, ?_⟩
    · rw [List.map_append]
      exact run_concat_eq_some.mpr ⟨s, outs, r, hrun, hs, rfl⟩
    · have hacc : ((pre ++ [g]).map Arrival.call).filterMap JBufCall.accepted =
          (pre.map Arrival.call).filterMap JBufCall.accepted ++ [(g.data, info)] := by
        rw [List.map_append, List.filterMap_append, List.map_singleton, filterMap_singleton,
          Arrival.call, JBufCall.accepted, hparse]
        rfl
      rw [hacc, List.map_append]
      exact hinv'

/-- **Bounded reordering is fully undone.** -/
theorem jbufRun_reorders (hc3 : 3 ≤ c) (hc : c ≤ 256) (hbound : a + n < 2 ^ 63)
    {grams : List Arrival} (hgrams : ∀ g ∈ grams, g.Carries)
    (hperm : grams.map Arrival.lseq ~ List.range' a n)
    (hb : Bounded (c - 2) (grams.map Arrival.lseq))
    (hfirst : ∀ y ∈ (grams.map Arrival.lseq).head?, y < 65536) :
    ∃ s outs r,
      run jbufStep (rtpjbufCtor c) (grams.map Arrival.call ++ [.flush]) = some (s, outs ++ [r]) ∧
      (delivered (outs ++ [r])).map RtpPacket.lseq = List.range' a n ∧
      (delivered (outs ++ [r])).map RtpPacket.numbered ~
        ((grams.map Arrival.call).filterMap JBufCall.accepted).zip (grams.map Arrival.lseq) ∧
      (∀ o ∈ outs ++ [r], o.drop = []) ∧
      (∀ o ∈ outs, ∀ f ∈ o.ready, f.isRtp) := by
  obtain ⟨s, outs, hrun, hinv⟩ :=
    reorderInv_of_run hc3 hc hbound hgrams hperm hb hfirst grams (List.prefix_refl _)
  have harr : Arrived c a n (grams.map Arrival.lseq) :=
    arrived_of_bounded (q := []) (by simpa using hb) (by simpa using hperm) hbound
  obtain ⟨s', r, hs, hdrop, hdel⟩ := hinv.flush hc3 harr hperm
  refine ⟨s', outs, r, run_concat_eq_some.mpr ⟨s, outs, r, hrun, hs, rfl⟩, hdel, ?_, ?_, ?_⟩
  · have hplaces := places_step RtpPacket.numbered (fun _ => rfl) outs hs
    have hdropped : dropped (outs ++ [r]) = [] := by
      have := hinv.dropped
      simp only [dropped, List.flatMap_append, List.flatMap_singleton] at this ⊢
      rw [this, hdrop]; rfl
    rw [places, head_of_flush hs, hdropped, List.nil_append, List.append_nil, newPacket,
      List.map_nil, List.append_nil] at hplaces
    exact hplaces.trans hinv.places
  · intro o ho
    rcases List.mem_append.mp ho with ho | ho
    · exact List.flatMap_eq_nil_iff.mp hinv.dropped o ho
    · rw [List.mem_singleton.mp ho]
      exact hdrop
  · intro o ho f hf
    exact hinv.noErs f (List.mem_flatMap.mpr ⟨o, ho, hf⟩)

theorem jbufRun_reorders_wrap :
    ∃ s outs r,
      run jbufStep (rtpjbufCtor 3)
        ([⟨0, datagram 65535, 65535⟩, ⟨1, datagram 65534, 65534⟩, ⟨2, datagram 1, 65537⟩,
          ⟨3, datagram 0, 65536⟩].map Arrival.call ++ [.flush]) = some (s, outs ++ [r]) ∧
      (delivered (outs ++ [r])).map RtpPacket.lseq = [65534, 65535, 65536, 65537] := by
  have hcarries : ∀ g ∈ [Arrival.mk 0 (datagram 65535) 65535, ⟨1, datagram 65534, 65534⟩,
      ⟨2, datagram 1, 65537⟩, ⟨3, datagram 0, 65536⟩], g.Carries := by
    intro g hg
    have hsome : (parsed g.buf).isSome ∧
        ∀ info ∈ parsed g.buf, info.seq.toNat = g.lseq % 65536 := by
      simp only [List.mem_cons, List.not_mem_nil, or_false] at hg
      rcases hg with rfl | rfl | rfl | rfl <;> decide
    obtain ⟨info, hinfo⟩ := Option.isSome_iff_exists.mp hsome.1
    exact ⟨info, hinfo, hsome.2 info hinfo⟩
  obtain ⟨s, outs, r, hrun, hdel, -⟩ := jbufRun_reorders (by decide : 3 ≤ 3) (by decide)
    (by decide : 65534 + 4 < 2 ^ 63) hcarries (by decide) ⟨by decide, by decide⟩ (by decide)
  exact ⟨s, outs, r, hrun, hdel⟩

end Rtp
