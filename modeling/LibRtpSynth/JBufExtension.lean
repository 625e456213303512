/-
Extension of 16-bit sequence numbers.

`rtpjbuf_udp_in` extends the 16-bit number of a datagram by the epoch
`lseq_mask`, with an adjustment on each side of a wrap.  Two facts carry the
results: `last_max_lseq` is the running maximum of the numbers
(`Placed.lastMax_eq`), and around the maximum the extension is exact
(`assign_window`).

* `jbufRun_extends` — numbers that stay within 535 of the running maximum are
  recovered exactly, over any number of wraps;
* `jbufRun_epoch` — the epoch is that of `last_max_lseq` as long as no purge
  moves the maximum back over a wrap; `purge_breaks_epoch` is a run where one
  does.
-/
import LibRtpSynth.JBufInvariant

open CWords Runs
open scoped List

namespace Rtp

variable {s s' : RtpjbufInst} {r : RjbUdpInR} {fp : RtpPacket} {drop : List RtpPacket}

/-! ### The running maximum -/

/-- No held number is above `last_max_lseq`. -/
theorem JInv.le_max (h : JInv s) : ∀ n ∈ lseqs s, n ≤ s.lastMaxLseq := by
  intro n hn
  have hasc := h.asc
  have htail := h.tail
  rcases List.eq_nil_or_concat (lseqs s) with hnil | ⟨init, m, heq⟩
  · rw [hnil] at hn
    cases hn
  · rw [List.concat_eq_append] at heq
    rw [heq] at hn hasc htail
    rw [htail m (by simp)]
    rcases List.mem_append.mp hn with hn | hn
    · exact ((List.pairwise_append.mp hasc).2.2 n hn m (List.mem_singleton_self m)).le
    · exact (List.mem_singleton.mp hn).le

theorem JInv.last_le_max (h : JInv s) (hgap : HeadGap s) (hmax : s.lastMaxLseq ≠ lmsDefault)
    (hlast : s.lastLseq ≠ lrsDefault) : s.lastLseq ≤ s.lastMaxLseq := by
  cases hls : lseqs s with
  | nil => exact ((h.empty hls).resolve_right fun hc => hmax hc.1).ge
  | cons n ns =>
    have hn : n ∈ lseqs s := by rw [hls]; exact List.mem_cons_self
    have h1 := h.last_add_two_le hgap hlast n hn
    have h2 := h.le_max n hn
    omega

/-- **`last_max_lseq` is the running maximum.** -/
theorem Placed.lastMax_eq (h : JInv s) (hgap : HeadGap s) (hp : Placed s fp drop s' r) :
    s'.lastMaxLseq =
      if s.lastMaxLseq = lmsDefault then fp.lseq else max s.lastMaxLseq fp.lseq := by
  -- an inserted frame is the maximum iff nothing is behind it
  have inserted : ∀ {pre post : List RtpPacket}, Inserted s fp pre post →
      (if post = [] then fp.lseq else s.lastMaxLseq) =
        if s.lastMaxLseq = lmsDefault then fp.lseq else max s.lastMaxLseq fp.lseq := by
    intro pre post hins
    rw [if_neg hins.max_ne]
    cases hpost : post with
    | nil =>
      rw [if_pos rfl]
      exact (max_eq_right (hins.max_lt hpost).le).symm
    | cons q post' =>
      rw [if_neg (List.cons_ne_nil _ _)]
      have hlt := hins.post_gt q (by rw [hpost]; rfl)
      have hle := h.le_max q.lseq (List.mem_map_of_mem (by rw [hins.head, hpost]; simp))
      exact (max_eq_left (by omega)).symm
  cases hp with
  | late hmax hwarm hle | lateDup hmax hwarm hle =>
    -- late numbers are at most `last_lseq`, which is at most the maximum
    rw [if_neg hmax]
    have := h.last_le_max hgap hmax hwarm
    exact (max_eq_left (by omega : fp.lseq ≤ s.lastMaxLseq)).symm
  | dup q hmax hfresh hq heq =>
    rw [if_neg hmax]
    have := h.le_max q.lseq (List.mem_map_of_mem hq)
    exact (max_eq_left (by omega : fp.lseq ≤ s.lastMaxLseq)).symm
  | deliver hhead hmax =>
    show fp.lseq = _
    split
    · rfl
    · rename_i hne
      exact (max_eq_right (hmax.resolve_left hne).le).symm
  | hold hhead hmax =>
    show fp.lseq = _
    split
    · rfl
    · rename_i hne
      exact (max_eq_right (hmax.resolve_left hne).1.le).symm
  | insert pre post hins => exact inserted hins
  | release pre post f₀ run ifp next hins hrel => exact inserted hins

/-- The conversion is the last that happens to the epoch in a call. -/
theorem Placed.lseqMask_eq (hp : Placed s fp drop s' r) : s'.lseqMask = s.lseqMask := by
  cases hp <;> rfl

theorem Placed.seqWup_eq (hp : Placed s fp drop s' r) : s'.seqWup = s.seqWup := by
  cases hp <;> rfl

/-! ### The window -/

theorem wrapUp_iff (hmod : s.lseqMask % 65536 = 0) (seq : UInt16) :
    WrapUp s seq ↔
      s.lastMaxLseq > 65000 ∧ s.lseqMask + seq.toNat < sub64 s.lastMaxLseq 65000 := by
  rw [WrapUp, lor_eq_add hmod seq.toNat_lt]

/-- **Exact extension around the maximum.**  A number `x` at most 535 away from
the largest number `m` is recovered from its low sixteen bits, and the epoch
follows the new maximum. -/
theorem assign_window {m x : ℕ} {seq : UInt16} (hm : s.lastMaxLseq = m) (hm63 : m < 2 ^ 63)
    (hmask : s.lseqMask = m - m % 65536) (hx63 : x < 2 ^ 63) (hseq : seq.toNat = x % 65536)
    (hle : x ≤ m + 535) (hge : m ≤ x + 535) :
    (assign s seq).2 = x ∧
    (assign s seq).1.lseqMask = max m x - max m x % 65536 ∧
    (assign s seq).1.seqWup =
      if m / 65536 < x / 65536 then add64 s.seqWup 1 else s.seqWup := by
  have hmod : s.lseqMask % 65536 = 0 := by omega
  have hne : s.lastMaxLseq ≠ lmsDefault := hm ▸ (lt_lmsDefault hm63).ne
  rcases assign_cases hmod seq with ⟨-, hpre, heq⟩ | ⟨-, hpre, hwrap, heq⟩ | ⟨hor, heq⟩
  · -- `x` lies in the epoch before that of `m`
    obtain ⟨h1, h2⟩ := hpre
    rw [hm] at h1
    rw [heq]
    dsimp only
    rw [if_neg (by omega), max_eq_left (by omega : x ≤ m), hmask, sub64_of_le (by omega) (by omega)]
    exact ⟨by omega, rfl, rfl⟩
  · -- `x` lies in the epoch after that of `m`
    rw [wrapUp_iff hmod, hm, sub64] at hwrap
    rw [PreWrap, hm] at hpre
    rw [heq]
    dsimp only
    rw [if_pos (by omega), hmask, add64_of_lt (by omega), add64_of_lt (by omega)]
    exact ⟨by omega, by omega, rfl⟩
  · obtain ⟨hpre, hwrap⟩ := hor.resolve_left hne
    rw [wrapUp_iff hmod, hm, sub64] at hwrap
    rw [PreWrap, hm] at hpre
    rw [heq]
    dsimp only
    rw [if_neg (by omega), hmask]
    exact ⟨by omega, by omega, rfl⟩

/-! ### Runs inside the window -/

/-- The largest number of a list. -/
def maxOf (xs : List ℕ) : ℕ := xs.foldl max 0

theorem maxOf_concat (xs : List ℕ) (x : ℕ) : maxOf (xs ++ [x]) = max (maxOf xs) x := by
  rw [maxOf, List.foldl_append]; rfl

/-- The number `x` is near the largest of the numbers `pre` before it; the first
one is below the first wrap. -/
def InWindow (pre : List ℕ) (x : ℕ) : Prop :=
  x < 2 ^ 63 ∧ if pre = [] then x ≤ 65535 else x ≤ maxOf pre + 535 ∧ maxOf pre ≤ x + 535

/-- Every number is near the largest one before it. -/
def Window (xs : List ℕ) : Prop := ∀ i, ∀ h : i < xs.length, InWindow (xs.take i) xs[i]

instance (pre : List ℕ) (x : ℕ) : Decidable (InWindow pre x) :=
  inferInstanceAs (Decidable (x < 2 ^ 63 ∧ _))

instance (xs : List ℕ) : Decidable (Window xs) :=
  inferInstanceAs (Decidable (∀ i, ∀ h : i < xs.length, InWindow (xs.take i) xs[i]))

theorem Window.of_concat {xs : List ℕ} {x : ℕ} (h : Window (xs ++ [x])) :
    Window xs ∧ InWindow xs x := by
  constructor
  · intro i hi
    have hx := h i (by rw [List.length_append]; omega)
    rwa [List.take_append_of_le_length hi.le, List.getElem_append_left hi] at hx
  · have hx := h xs.length (by simp)
    rwa [List.take_left, List.getElem_concat_length rfl] at hx

/-- The numbers `xs` were extended exactly so far. -/
structure Extended (xs : List ℕ) (s : RtpjbufInst) : Prop where
  lastMax : s.lastMaxLseq = if xs = [] then lmsDefault else maxOf xs
  mask : s.lseqMask = maxOf xs - maxOf xs % 65536
  wup : s.seqWup = maxOf xs / 65536
  bound : maxOf xs < 2 ^ 63

theorem Extended.assign {xs : List ℕ} {x : ℕ} {seq : UInt16} (h : Extended xs s)
    (hx : InWindow xs x) (hseq : seq.toNat = x % 65536) :
    (assign s seq).2 = x ∧
    (assign s seq).1.lseqMask = maxOf (xs ++ [x]) - maxOf (xs ++ [x]) % 65536 ∧
    (assign s seq).1.seqWup = maxOf (xs ++ [x]) / 65536 := by
  obtain ⟨hx63, hnear⟩ := hx
  have hb := h.bound
  rw [maxOf_concat]
  by_cases hxs : xs = []
  · subst hxs
    -- the first number is below the first wrap, and the epoch is 0
    rw [if_pos rfl] at hnear
    have hmask : s.lseqMask = 0 := h.mask
    have hwup : s.seqWup = 0 := h.wup
    have hmax : s.lastMaxLseq = lmsDefault := h.lastMax
    rw [Rtp.assign, if_pos hmax]
    dsimp only
    rw [hmask, hwup, Nat.zero_or, show maxOf [] = 0 from rfl]
    omega
  · rw [if_neg hxs] at hnear
    have hmax := h.lastMax
    rw [if_neg hxs] at hmax
    obtain ⟨h1, h2, h3⟩ := assign_window hmax hb h.mask hx63 hseq hnear.1 hnear.2
    refine ⟨h1, h2, ?_⟩
    rw [h3, h.wup]
    split
    · rw [add64_of_lt (by omega)]
      omega
    · omega

/-- A purge that removes nothing changes no number. -/
theorem purgeStaleTail_of_none (h : (purgeStaleTail s).1 = none) :
    (purgeStaleTail s).2.lastMaxLseq = s.lastMaxLseq ∧
      (purgeStaleTail s).2.seqWup = s.seqWup := by
  rcases purgeStaleTail_cases s with ⟨heq, -⟩ | ⟨_, _, _, _, ⟨_, heq⟩ | ⟨_, heq⟩⟩
  · rw [heq]; exact ⟨rfl, rfl⟩
  · rw [heq]; exact ⟨rfl, rfl⟩
  · rw [heq] at h; cases h

theorem Extended.purge {xs : List ℕ} (h : Extended xs s) (hnone : (purgeStaleTail s).1 = none) :
    Extended xs (purgeStaleTail s).2 := by
  obtain ⟨hmax, hwup⟩ := purgeStaleTail_of_none hnone
  exact ⟨hmax.trans h.lastMax, (purgeStaleTail_lseqMask s).trans h.mask, hwup.trans h.wup, h.bound⟩

/-- Placing a datagram whose number was extended to `x`. -/
theorem Extended.placed {xs : List ℕ} {x : ℕ} {seq : UInt16} {data : ℕ} {info : RtpInfo}
    (h : Extended xs s) (hinv : JInv s) (hgap : HeadGap s) (hx : InWindow xs x)
    (hseq : seq.toNat = x % 65536)
    (hp : Placed (Rtp.assign s seq).1 ⟨info, (Rtp.assign s seq).2, 0, data⟩ drop s' r) :
    Extended (xs ++ [x]) s' := by
  obtain ⟨h1, h2, h3⟩ := h.assign hx hseq
  refine ⟨?_, hp.lseqMask_eq.trans h2, hp.seqWup_eq.trans h3, ?_⟩
  · have hcons : xs ++ [x] ≠ [] := by simp
    rw [if_neg hcons, hp.lastMax_eq (hinv.assign seq) (hgap.assign seq), assign_lastMaxLseq, h.lastMax,
      maxOf_concat]
    dsimp only
    rw [h1]
    by_cases hxs : xs = []
    · subst hxs
      rw [if_pos rfl, if_pos rfl]
      exact (Nat.zero_max x).symm
    · rw [if_neg hxs, if_neg (lt_lmsDefault h.bound).ne]
  · rw [maxOf_concat]
    exact max_lt h.bound hx.1

/-- The purge at the start of the call removes nothing. -/
def JBufCall.purgesNothing (s : RtpjbufInst) : JBufCall → Prop
  | .udpIn _ _ => (purgeStaleTail s).1 = none
  | .flush => True

instance (s : RtpjbufInst) : ∀ call : JBufCall, Decidable (call.purgesNothing s)
  | .udpIn _ _ => inferInstanceAs (Decidable ((purgeStaleTail s).1 = none))
  | .flush => inferInstanceAs (Decidable True)

/-- The 16-bit numbers of the accepted datagrams. -/
def seqs (calls : List JBufCall) : List ℕ :=
  (calls.filterMap JBufCall.accepted).map fun a => a.2.seq.toNat

theorem seqs_concat (calls : List JBufCall) (call : JBufCall) :
    seqs (calls ++ [call]) = seqs calls ++ call.accepted.toList.map fun a => a.2.seq.toNat := by
  rw [seqs, List.filterMap_append, filterMap_singleton, List.map_append, seqs]

/-- A call that brings no packet leaves the numbers alone. -/
theorem Extended.step_none {xs : List ℕ} (h : Extended xs s) {call : JBufCall}
    (hnone : call.purgesNothing s) (hacc : call.accepted = none)
    (hs : jbufStep s call = some (s', r)) : Extended xs s' := by
  cases jbufStep_cases hs with
  | rejected =>
    have hpurge := h.purge hnone
    exact ⟨hpurge.lastMax, hpurge.mask, hpurge.wup, hpurge.bound⟩
  | placed info hparse =>
    rw [JBufCall.accepted, hparse] at hacc
    cases hacc
  | idle => exact h
  | flushed => exact ⟨h.lastMax, h.mask, h.wup, h.bound⟩

/-- A call that brings the packet with the number `x`. -/
theorem Extended.step {xs : List ℕ} {x : ℕ} (h : Extended xs s) (hinv : JInv s)
    (hgap : HeadGap s) {call : JBufCall} (hnone : call.purgesNothing s) {a : ℕ × RtpInfo}
    (hacc : call.accepted = some a) (hx : InWindow xs x) (hseq : a.2.seq.toNat = x % 65536)
    (hs : jbufStep s call = some (s', r)) :
    Extended (xs ++ [x]) s' ∧ newPacket s call = [⟨a.2, x, 0, a.1⟩] := by
  cases jbufStep_cases hs with
  | rejected e hparse =>
    rw [JBufCall.accepted, hparse] at hacc
    cases hacc
  | placed info hparse hp =>
    rw [JBufCall.accepted, hparse, Option.map_some, Option.some.injEq] at hacc
    subst hacc
    have hpurge := h.purge hnone
    refine ⟨hpurge.placed hinv.purge (hgap.purge hinv) hx hseq hp, ?_⟩
    rw [newPacket, hparse, Option.toList_some, List.map_singleton, (hpurge.assign hx hseq).1]
  | idle | flushed => cases hacc

/-- In the window no datagram gets the all-ones number. -/
theorem Extended.notSentinel {xs : List ℕ} {x : ℕ} (h : Extended xs s) {call : JBufCall}
    (hnone : call.purgesNothing s) {a : ℕ × RtpInfo} (hacc : call.accepted = some a)
    (hx : InWindow xs x) (hseq : a.2.seq.toNat = x % 65536) : call.notSentinel s := by
  cases call with
  | flush => trivial
  | udpIn data buf =>
    intro info hinfo
    rw [JBufCall.accepted, Option.mem_def.mp hinfo, Option.map_some, Option.some.injEq] at hacc
    subst hacc
    rw [((h.purge hnone).assign hx hseq).1]
    exact lt_lmsDefault hx.1

theorem notSentinel_of_none {call : JBufCall} (hacc : call.accepted = none) :
    call.notSentinel s := by
  cases call with
  | flush => trivial
  | udpIn data buf =>
    intro info hinfo
    rw [JBufCall.accepted, Option.mem_def.mp hinfo] at hacc
    cases hacc

/-- The packets of a run with their numbers. -/
def RtpPacket.numbered (p : RtpPacket) : (ℕ × RtpInfo) × ℕ := (p.datagram, p.lseq)

/-- What a run inside the window keeps. -/
structure WindowInv (capacity : ℕ) (calls : List JBufCall) (outs : List RjbUdpInR)
    (s : RtpjbufInst) : Prop where
  inv : JInv s
  capacity_eq : s.capacity = capacity
  exact : ∀ xs, Window xs → seqs calls = xs.map (· % 65536) →
    Extended xs s ∧
      (places s outs).map RtpPacket.numbered ~ (calls.filterMap JBufCall.accepted).zip xs

/-- The last call either brings no packet, or the one with the last number. -/
theorem seqs_split {calls : List JBufCall} {call : JBufCall} {xs : List ℕ} (hwin : Window xs)
    (hseqs : seqs (calls ++ [call]) = xs.map (· % 65536)) :
    (call.accepted = none ∧ seqs calls = xs.map (· % 65536)) ∨
    ∃ a ys x, call.accepted = some a ∧ xs = ys ++ [x] ∧ Window ys ∧ InWindow ys x ∧
      seqs calls = ys.map (· % 65536) ∧ a.2.seq.toNat = x % 65536 := by
  rw [seqs_concat] at hseqs
  cases hacc : call.accepted with
  | none =>
    rw [hacc, Option.toList_none, List.map_nil, List.append_nil] at hseqs
    exact .inl ⟨rfl, hseqs⟩
  | some a =>
    rw [hacc, Option.toList_some, List.map_singleton] at hseqs
    rcases List.eq_nil_or_concat xs with rfl | ⟨ys, x, rfl⟩
    · simp at hseqs
    · rw [List.concat_eq_append] at hwin hseqs ⊢
      rw [List.map_append, List.map_singleton] at hseqs
      obtain ⟨h1, h2⟩ := List.append_inj' hseqs rfl
      obtain ⟨hys, hx⟩ := hwin.of_concat
      exact .inr ⟨a, ys, x, rfl, rfl, hys, hx, h1, by simpa using h2⟩

/-- A call inside the window does not abort. -/
theorem WindowInv.total {capacity : ℕ} (h3 : 3 ≤ capacity) {calls : List JBufCall}
    {outs : List RjbUdpInR} {call : JBufCall} {xs : List ℕ} (hinv : WindowInv capacity calls outs s)
    (hwin : Window xs) (hseqs : seqs (calls ++ [call]) = xs.map (· % 65536))
    (hnone : call.purgesNothing s) :
    ∃ s' r, jbufStep s call = some (s', r) ∧ JInv s' := by
  have hs3 : 3 ≤ s.capacity := hinv.capacity_eq ▸ h3
  have hok : call.notSentinel s := by
    rcases seqs_split hwin hseqs with ⟨hacc, -⟩ | ⟨a, ys, x, hacc, -, hys, hx, hseqs', hseq⟩
    · exact notSentinel_of_none hacc
    · exact (hinv.exact ys hys hseqs').1.notSentinel hnone hacc hx hseq
  obtain ⟨s', r, hs, hinv', -⟩ :=
    jbufStep_total hinv.inv (hinv.inv.headGap hs3) hok (hinv.inv.fresh hs3 call)
  exact ⟨s', r, hs, hinv'⟩

theorem WindowInv.step {capacity : ℕ} (h3 : 3 ≤ capacity) {calls : List JBufCall}
    {outs : List RjbUdpInR} {call : JBufCall} (hinv : WindowInv capacity calls outs s)
    (hnone : call.purgesNothing s) (hs : jbufStep s call = some (s', r)) (hinv' : JInv s') :
    WindowInv capacity (calls ++ [call]) (outs ++ [r]) s' := by
  have hgap := hinv.inv.headGap (hinv.capacity_eq ▸ h3)
  have hplaces := places_step RtpPacket.numbered (fun _ => rfl) outs hs
  refine ⟨hinv', (jbufStep_capacity hs).trans hinv.capacity_eq, fun xs hwin hseqs => ?_⟩
  rw [List.filterMap_append, filterMap_singleton]
  rcases seqs_split hwin hseqs with ⟨hacc, hseqs'⟩ | ⟨a, ys, x, hacc, rfl, hys, hx, hseqs', hseq⟩
  · obtain ⟨hext, hperm⟩ := hinv.exact xs hwin hseqs'
    -- nothing came in
    have hnew : newPacket s call = [] := by
      have := newPacket_datagram s call
      rw [hacc] at this
      exact List.map_eq_nil_iff.mp this
    rw [hnew, List.map_nil, List.append_nil] at hplaces
    rw [hacc, Option.toList_none, List.append_nil]
    exact ⟨hext.step_none hnone hacc hs, hplaces.trans hperm⟩
  · obtain ⟨hext, hperm⟩ := hinv.exact ys hys hseqs'
    obtain ⟨hext', hnew⟩ := hext.step hinv.inv hgap hnone hacc hx hseq hs
    have hlen : (calls.filterMap JBufCall.accepted).length = ys.length := by
      have := congrArg List.length hseqs'
      rwa [seqs, List.length_map, List.length_map] at this
    rw [hnew] at hplaces
    rw [hacc, Option.toList_some, List.zip_append hlen]
    exact ⟨hext', hplaces.trans (hperm.append_right _)⟩

/-- **Sequence extension is exact inside its window.** -/
theorem jbufRun_extends {capacity : ℕ} (h3 : 3 ≤ capacity) (hcap : capacity < 2 ^ 32)
    {calls : List JBufCall} {xs : List ℕ} (hwin : Window xs)
    (hseqs : seqs calls = xs.map (· % 65536))
    (hpurge : Always jbufStep (fun s call => call.purgesNothing s) (rtpjbufCtor capacity) calls) :
    ∃ s outs, run jbufStep (rtpjbufCtor capacity) calls = some (s, outs) ∧
      (places s outs).map RtpPacket.numbered ~ (calls.filterMap JBufCall.accepted).zip xs ∧
      s.lseqMask = maxOf xs - maxOf xs % 65536 ∧
      (xs ≠ [] → s.lastMaxLseq = maxOf xs) ∧
      s.seqWup = maxOf xs / 65536 := by
  have hinit : WindowInv capacity [] [] (rtpjbufCtor capacity) := by
    refine ⟨jInv_ctor hcap, rfl, fun xs _ hxs => ?_⟩
    obtain rfl : xs = [] := List.map_eq_nil_iff.mp hxs.symm
    exact ⟨⟨rfl, rfl, rfl, by decide⟩, List.Perm.refl _⟩
  -- a prefix of the calls carries a prefix of the numbers
  have hshorter : ∀ {calls call}, (∃ xs, Window xs ∧ seqs (calls ++ [call]) = xs.map (· % 65536)) →
      ∃ xs, Window xs ∧ seqs calls = xs.map (· % 65536) := by
    rintro calls call ⟨xs, hwin, hseqs⟩
    rcases seqs_split hwin hseqs with ⟨-, h⟩ | ⟨a, ys, x, -, -, hys, -, h, -⟩
    · exact ⟨xs, hwin, h⟩
    · exact ⟨ys, hys, h⟩
  obtain ⟨s, outs, hrun, hinv⟩ := run_total
    (fun calls => ∃ xs, Window xs ∧ seqs calls = xs.map (· % 65536)) (WindowInv capacity)
    hshorter hinit
    (fun ⟨xs, hwin, hseqs⟩ hinv hnone => by
      obtain ⟨s', r, hs, hinv'⟩ := hinv.total h3 hwin hseqs hnone
      exact ⟨s', r, hs, hinv.step h3 hnone hs hinv'⟩)
    ⟨xs, hwin, hseqs⟩ hpurge
  obtain ⟨hext, hperm⟩ := hinv.exact xs hwin hseqs
  exact ⟨s, outs, hrun, hperm, hext.mask, fun hne => by rw [hext.lastMax, if_neg hne], hext.wup⟩

theorem jbufRun_extends_wrap :
    ∃ s outs, run jbufStep (rtpjbufCtor 5)
        [.udpIn 0 (datagram 65534), .udpIn 1 (datagram 1), .udpIn 2 (datagram 65535),
          .udpIn 3 (datagram 0)] = some (s, outs) ∧
      (places s outs).map RtpPacket.numbered ~
        ([.udpIn 0 (datagram 65534), .udpIn 1 (datagram 1), .udpIn 2 (datagram 65535),
          .udpIn 3 (datagram 0)].filterMap JBufCall.accepted).zip [65534, 65537, 65535, 65536] ∧
      s.lseqMask = 65536 ∧ s.seqWup = 1 := by
  obtain ⟨s, outs, hrun, hperm, hmask, -, hwup⟩ :=
    jbufRun_extends (by decide : 3 ≤ 5) (by decide) (by decide : Window [65534, 65537, 65535, 65536])
      (by decide : seqs [.udpIn 0 (datagram 65534), .udpIn 1 (datagram 1),
        .udpIn 2 (datagram 65535), .udpIn 3 (datagram 0)] = _) (by decide)
  exact ⟨s, outs, hrun, hperm, hmask, hwup⟩

/-! ### The epoch and the purge -/

/-- The epoch is that of `last_max_lseq`. -/
def InEpoch (s : RtpjbufInst) : Prop :=
  s.lastMaxLseq ≠ lmsDefault → s.lseqMask = s.lastMaxLseq - s.lastMaxLseq % 65536

/-- There is no wrap between the last two held frames. -/
def TailInBlock (s : RtpjbufInst) : Prop :=
  ∀ tail ∈ s.head.getLast?, ∀ prev ∈ s.head.dropLast.getLast?,
    prev.lseq / 65536 = tail.lseq / 65536

instance (s : RtpjbufInst) : Decidable (TailInBlock s) :=
  inferInstanceAs (Decidable (∀ tail ∈ s.head.getLast?, ∀ prev ∈ s.head.dropLast.getLast?,
    prev.lseq / 65536 = tail.lseq / 65536))

/-- The condition on a call for the epoch to stay right: a tail is purged only
when there is no wrap between it and the frame before; the pre-wrap adjustment is
made only once an epoch has passed; and the 64-bit number does not overflow. -/
def JBufCall.epochOk (s : RtpjbufInst) : JBufCall → Prop
  | .udpIn _ buf =>
      ((purgeStaleTail s).1 ≠ none → TailInBlock s) ∧
      ∀ info ∈ parsed buf,
        (PreWrap (purgeStaleTail s).2 info.seq → 0x10000 ≤ s.lseqMask) ∧
        (WrapUp (purgeStaleTail s).2 info.seq → s.lseqMask ≠ 2 ^ 64 - 65536) ∧
        NotSentinel (purgeStaleTail s).2 info.seq
  | .flush => True

instance (s : RtpjbufInst) : ∀ call : JBufCall, Decidable (call.epochOk s)
  | .udpIn _ buf => inferInstanceAs (Decidable (_ ∧ ∀ info ∈ parsed buf, _))
  | .flush => inferInstanceAs (Decidable True)

theorem JInv.notSentinel_of_epochOk (h : JInv s) {call : JBufCall} (hok : call.epochOk s) :
    call.notSentinel s := by
  cases call with
  | flush => trivial
  | udpIn data buf =>
    have hpurge := h.purge
    intro info hinfo
    exact assign_lt hpurge.mask_mod hpurge.mask_lt (hok.2 info hinfo).2.2

theorem InEpoch.purge (h : InEpoch s) (hinv : JInv s)
    (hok : (purgeStaleTail s).1 ≠ none → TailInBlock s) : InEpoch (purgeStaleTail s).2 := by
  intro hmax
  rcases purgeStaleTail_cases s with ⟨heq, -⟩ | ⟨prev, tail, hhead, -, ⟨-, heq⟩ | ⟨-, heq⟩⟩
  · rw [heq] at hmax ⊢
    exact h hmax
  · rw [heq] at hmax ⊢
    exact h hmax
  · -- the maximum moves from the tail to the frame before it, in the same block
    have htail : tail.lseq ∈ (lseqs s).getLast? := by simp [lseqs, hhead]
    have hmaxt := hinv.tail _ htail
    have hlt := hinv.lt _ (List.mem_of_getLast? htail)
    have hmask := h (hmaxt ▸ hlt.ne)
    have hblock := hok (by rw [heq]; exact Option.some_ne_none _) tail (by simp [hhead])
    rw [hhead, List.dropLast_concat] at hblock
    rw [heq] at hmax ⊢
    simp only [purgedInst, if_pos hmaxt] at hmax ⊢
    cases hprev : prev.getLast? with
    | none => exact absurd (by rw [hprev]; rfl) hmax
    | some p =>
      have hp := hblock p hprev
      rw [Option.elim_some, hmask, hmaxt]
      omega

/-- The conversion and the new maximum agree on the epoch. -/
theorem InEpoch.assign {seq : UInt16} (h : InEpoch s) (hinv : JInv s)
    (hpre : PreWrap s seq → 0x10000 ≤ s.lseqMask)
    (hover : WrapUp s seq → s.lseqMask ≠ 2 ^ 64 - 65536) {m : ℕ}
    (hm : m = if s.lastMaxLseq = lmsDefault then (assign s seq).2 else
      max s.lastMaxLseq (assign s seq).2) :
    (Rtp.assign s seq).1.lseqMask = m - m % 65536 := by
  have hmod := hinv.mask_mod
  have hlt := hinv.mask_lt
  have hseq := seq.toNat_lt
  subst hm
  rcases assign_cases hmod seq with ⟨hmax, hp, heq⟩ | ⟨hmax, -, hwrap, heq⟩ | ⟨hor, heq⟩
  · -- one epoch back: the maximum stays
    have hmask := h hmax
    have := hpre hp
    rw [heq, if_neg hmax, sub64_of_le (by omega) (by omega)]
    dsimp only
    rw [max_eq_left (by omega)]
    exact hmask
  · have hmask := h hmax
    have := hover hwrap
    rw [heq, if_neg hmax]
    dsimp only
    rw [add64_of_lt (by omega), add64_of_lt (by omega), max_eq_right (by omega)]
    omega
  · rw [heq]
    dsimp only
    by_cases hmax : s.lastMaxLseq = lmsDefault
    · rw [if_pos hmax]
      omega
    · have hmask := h hmax
      rw [if_neg hmax]
      omega

theorem InEpoch.step (h : InEpoch s) (hinv : JInv s) (hgap : HeadGap s) {call : JBufCall}
    (hok : call.epochOk s) (hs : jbufStep s call = some (s', r)) : InEpoch s' := by
  cases jbufStep_cases hs with
  | rejected => exact h.purge hinv hok.1
  | placed info hparse hp =>
    obtain ⟨hpre, hover, -⟩ := hok.2 info hparse
    have hmax := hp.lastMax_eq (hinv.purge.assign info.seq) ((hgap.purge hinv).assign _)
    rw [assign_lastMaxLseq] at hmax
    intro _
    rw [hp.lseqMask_eq]
    exact (h.purge hinv hok.1).assign hinv.purge (by rw [purgeStaleTail_lseqMask]; exact hpre)
      (by rw [purgeStaleTail_lseqMask]; exact hover) hmax
  | idle | flushed => exact h

/-- The low sixteen bits of an assigned number are those of the datagram. -/
theorem assign_mod (hmod : s.lseqMask % 65536 = 0) (seq : UInt16) :
    (assign s seq).2 % 65536 = seq.toNat := by
  have hseq := seq.toNat_lt
  rcases assign_cases hmod seq with ⟨-, -, heq⟩ | ⟨-, -, -, heq⟩ | ⟨-, heq⟩
  · rw [heq]
    dsimp only
    unfold sub64
    omega
  · rw [heq]
    dsimp only
    unfold add64
    omega
  · rw [heq]
    dsimp only
    omega

/-- The held frames carry the low sixteen bits of their numbers. -/
def Numbered (s : RtpjbufInst) : Prop := ∀ p ∈ s.head, p.lseq % 65536 = p.info.seq.toNat

theorem numbered_of_core {p q : RtpPacket} (heq : q.core = p.core)
    (h : q.lseq % 65536 = q.info.seq.toNat) : p.lseq % 65536 = p.info.seq.toNat := by
  have h1 := congrArg RtpPacket.lseq heq
  have h2 := congrArg RtpPacket.info heq
  have h1 : q.lseq = p.lseq := h1
  have h2 : q.info = p.info := h2
  rwa [h1, h2] at h

theorem Numbered.step (h : Numbered s) (hinv : JInv s) {call : JBufCall}
    (hs : jbufStep s call = some (s', r)) : Numbered s' := by
  intro p hp
  have hmem : p.core ∈ s.head.map RtpPacket.core ++ newPacket s call :=
    (jbufStep_perm hs).mem_iff.mp (List.mem_map_of_mem (List.mem_append_left _ hp))
  -- a frame was held before, perhaps with another age, or has just come in
  rcases List.mem_append.mp hmem with hmem | hmem
  · obtain ⟨q, hq, heq⟩ := List.mem_map.mp hmem
    exact numbered_of_core heq (h q hq)
  · cases call with
    | flush => cases hmem
    | udpIn data buf =>
      obtain ⟨info, -, heq⟩ := List.mem_map.mp hmem
      exact numbered_of_core (q := ⟨info, (assign (purgeStaleTail s).2 info.seq).2, 0, data⟩) heq
        (assign_mod hinv.purge.mask_mod info.seq)

theorem Numbered.purge (h : Numbered s) : Numbered (purgeStaleTail s).2 := by
  intro p hp
  have hmem : p.core ∈ s.head.map RtpPacket.core :=
    (purgeStaleTail_perm s).mem_iff.mp (List.mem_map_of_mem (List.mem_append_left _ hp))
  obtain ⟨q, hq, heq⟩ := List.mem_map.mp hmem
  exact numbered_of_core heq (h q hq)

/-! ### Repeated datagrams -/

/-- The number `n` can be recovered from its low sixteen bits when the largest
number is `m`. -/
def InReach (m n : ℕ) : Prop :=
  (n / 65536 = m / 65536 ∧ (m ≤ 65000 ∨ m - 65000 ≤ n)) ∨
    (n / 65536 + 1 = m / 65536 ∧ m % 65536 < 536 ∧ n % 65536 > 65000)

instance (m n : ℕ) : Decidable (InReach m n) := inferInstanceAs (Decidable (_ ∨ _))

theorem assign_eq_iff {seq : UInt16} {n : ℕ} (h : InEpoch s) (hinv : JInv s)
    (hmax : s.lastMaxLseq ≠ lmsDefault) (hlt : s.lastMaxLseq < 2 ^ 64) (hn : n ≤ s.lastMaxLseq)
    (hseq : n % 65536 = seq.toNat) (hpre : PreWrap s seq → 0x10000 ≤ s.lseqMask)
    (hover : WrapUp s seq → s.lseqMask ≠ 2 ^ 64 - 65536) :
    (assign s seq).2 = n ↔ InReach s.lastMaxLseq n := by
  have hmod := hinv.mask_mod
  have hmask := h hmax
  have hmlt := hinv.mask_lt
  unfold InReach
  rcases assign_cases hmod seq with ⟨-, hp, heq⟩ | ⟨-, hp, hwrap, heq⟩ | ⟨hor, heq⟩
  · have hpos := hpre hp
    obtain ⟨h1, h2⟩ := hp
    rw [heq]
    dsimp only
    rw [sub64_of_le (by omega) (by omega)]
    omega
  · have hne := hover hwrap
    rw [wrapUp_iff hmod] at hwrap
    rw [sub64_of_le hlt (by omega)] at hwrap
    unfold PreWrap at hp
    rw [heq]
    dsimp only
    rw [add64_of_lt (by omega)]
    omega
  · obtain ⟨hp, hwrap⟩ := hor.resolve_left hmax
    rw [wrapUp_iff hmod] at hwrap
    unfold PreWrap at hp
    rw [heq]
    dsimp only
    by_cases hbig : s.lastMaxLseq > 65000
    · rw [sub64_of_le hlt (by omega)] at hwrap
      omega
    · omega

/-- A packet with the number of a held frame is dropped as a duplicate. -/
theorem Placed.of_held {q : RtpPacket} (h : JInv s) (hgap : HeadGap s) (hq : q ∈ s.head)
    (heq : q.lseq = fp.lseq) (hp : Placed s fp drop s' r) :
    s' = { s with dropDup := add64 s.dropDup 1 } ∧ r = ⟨0, [], fp :: drop⟩ := by
  have notLate : s.lastLseq ≠ lrsDefault → ¬ fp.lseq ≤ s.lastLseq := by
    intro hwarm hle
    have := h.last_add_two_le hgap hwarm q.lseq (List.mem_map_of_mem hq)
    omega
  -- the frame with the number stands in `pre` or in `post`, where all numbers differ
  have notInserted : ∀ {pre post : List RtpPacket}, ¬ Inserted s fp pre post := by
    intro pre post hins
    rw [hins.head] at hq
    rcases List.mem_append.mp hq with hq | hq
    · have := hins.pre_lt q hq
      omega
    · have hasc := h.asc
      rw [lseqs, hins.head, List.map_append] at hasc
      have hasc' := (List.pairwise_append.mp hasc).2.1
      cases hpost : post with
      | nil => rw [hpost] at hq; cases hq
      | cons f₀ post' =>
        have h₀ := hins.post_gt f₀ (by rw [hpost]; rfl)
        rw [hpost] at hq
        rw [hpost, List.map_cons] at hasc'
        rcases List.mem_cons.mp hq with rfl | hq
        · omega
        · have := (List.pairwise_cons.mp hasc').1 _ (List.mem_map_of_mem hq)
          omega
  cases hp with
  | late _ hwarm hle | lateDup _ hwarm hle => exact absurd hle (notLate hwarm)
  | dup => exact ⟨rfl, rfl⟩
  | deliver hhead | hold hhead =>
    rw [hhead] at hq
    cases hq
  | insert pre post hins => exact absurd hins notInserted
  | release pre post f₀ run ifp next hins => exact absurd hins notInserted

/-- What a run keeps in which the epoch stays right. -/
structure EpochInv (capacity : ℕ) (s : RtpjbufInst) : Prop where
  inv : JInv s
  capacity_eq : s.capacity = capacity
  epoch : InEpoch s
  numbered : Numbered s

/-- A repeated datagram of a held frame in reach of the largest number. -/
theorem EpochInv.duplicate {capacity : ℕ} (h3 : 3 ≤ capacity) (h : EpochInv capacity s)
    {data : ℕ} {buf : List UInt8} {info : RtpInfo} {q : RtpPacket} (hparse : parsed buf = some info)
    (hok : (JBufCall.udpIn data buf).epochOk s) (hq : q ∈ (purgeStaleTail s).2.head)
    (hseq : q.info.seq = info.seq) :
    ((assign (purgeStaleTail s).2 info.seq).2 = q.lseq ↔
      InReach (purgeStaleTail s).2.lastMaxLseq q.lseq) ∧
    (InReach (purgeStaleTail s).2.lastMaxLseq q.lseq →
      ∃ s' r, jbufStep s (.udpIn data buf) = some (s', r) ∧
        s'.head = (purgeStaleTail s).2.head ∧ s'.dropDup = add64 s.dropDup 1 ∧
        r = ⟨0, [], ⟨info, q.lseq, 0, data⟩ :: (purgeStaleTail s).1.toList⟩) := by
  have hs3 : 3 ≤ s.capacity := h.capacity_eq ▸ h3
  have hgap := h.inv.headGap hs3
  have hpurge := h.inv.purge
  have hepoch := h.epoch.purge h.inv hok.1
  obtain ⟨hpre, hover, -⟩ := hok.2 info hparse
  have hqls : q.lseq ∈ lseqs (purgeStaleTail s).2 := List.mem_map_of_mem hq
  have hmax : (purgeStaleTail s).2.lastMaxLseq ≠ lmsDefault := by
    intro hc
    rw [hpurge.head_nil_of_max hc] at hq
    cases hq
  -- the maximum is the number of the tail
  have hlt : (purgeStaleTail s).2.lastMaxLseq < 2 ^ 64 := by
    rw [hpurge.tail _ (List.getLast?_eq_some_getLast (List.ne_nil_of_mem hqls))]
    exact lt_of_lt_lmsDefault (hpurge.lt _ (List.getLast_mem _))
  have hiff : (assign (purgeStaleTail s).2 info.seq).2 = q.lseq ↔
      InReach (purgeStaleTail s).2.lastMaxLseq q.lseq := by
    refine assign_eq_iff hepoch hpurge hmax hlt (hpurge.le_max _ hqls) ?_
      (by rw [purgeStaleTail_lseqMask]; exact hpre) (by rw [purgeStaleTail_lseqMask]; exact hover)
    rw [h.numbered.purge q hq, hseq]
  refine ⟨hiff, fun hreach => ?_⟩
  obtain ⟨s', r, hs, -⟩ := jbufStep_total h.inv hgap (h.inv.notSentinel_of_epochOk hok)
    (h.inv.fresh hs3 _)
  refine ⟨s', r, hs, ?_⟩
  cases jbufStep_cases hs with
  | rejected e hparse' =>
    rw [hparse'] at hparse
    cases hparse
  | placed info' hparse' hp =>
    rw [hparse', Option.some.injEq] at hparse
    subst hparse
    obtain ⟨rfl, rfl⟩ := hp.of_held (hpurge.assign _) ((hgap.purge h.inv).assign _)
      (by rw [assign_head]; exact hq) (hiff.mpr hreach).symm
    have hdup : (assign (purgeStaleTail s).2 info'.seq).1.dropDup = s.dropDup := by
      rw [assign_eq, purgeStaleTail_eq]
    refine ⟨assign_head _ _, ?_, by rw [hiff.mpr hreach]⟩
    show add64 (assign (purgeStaleTail s).2 info'.seq).1.dropDup 1 = _
    rw [hdup]

/-- **The epoch follows `last_max_lseq`** in every run whose purges do not move
it back over a wrap, and a repeated datagram of a held frame that is in reach is
recognised. -/
theorem jbufRun_epoch {capacity : ℕ} (h3 : 3 ≤ capacity) (hcap : capacity < 2 ^ 32)
    {calls : List JBufCall}
    (hok : Always jbufStep (fun s call => call.epochOk s) (rtpjbufCtor capacity) calls) :
    ∃ s outs, run jbufStep (rtpjbufCtor capacity) calls = some (s, outs) ∧
      (s.lastMaxLseq ≠ lmsDefault → s.lseqMask = s.lastMaxLseq - s.lastMaxLseq % 65536) ∧
      ∀ data buf info q, parsed buf = some info → (JBufCall.udpIn data buf).epochOk s →
        q ∈ (purgeStaleTail s).2.head → q.info.seq = info.seq →
        ((assign (purgeStaleTail s).2 info.seq).2 = q.lseq ↔
          InReach (purgeStaleTail s).2.lastMaxLseq q.lseq) ∧
        (InReach (purgeStaleTail s).2.lastMaxLseq q.lseq →
          ∃ s' r, jbufStep s (.udpIn data buf) = some (s', r) ∧
            s'.head = (purgeStaleTail s).2.head ∧ s'.dropDup = add64 s.dropDup 1 ∧
            r = ⟨0, [], ⟨info, q.lseq, 0, data⟩ :: (purgeStaleTail s).1.toList⟩) := by
  have hinit : EpochInv capacity (rtpjbufCtor capacity) :=
    ⟨jInv_ctor hcap, rfl, fun hc => absurd rfl hc, fun p hp => by cases hp⟩
  have hstep : ∀ {s : RtpjbufInst} {call : JBufCall}, EpochInv capacity s → call.epochOk s →
      ∃ s' r, jbufStep s call = some (s', r) ∧ EpochInv capacity s' := by
    intro s call hinv hok
    have hs3 : 3 ≤ s.capacity := hinv.capacity_eq ▸ h3
    have hgap := hinv.inv.headGap hs3
    obtain ⟨s', r, hs, hinv', -⟩ := jbufStep_total hinv.inv hgap
      (hinv.inv.notSentinel_of_epochOk hok) (hinv.inv.fresh hs3 call)
    exact ⟨s', r, hs, hinv', (jbufStep_capacity hs).trans hinv.capacity_eq,
      hinv.epoch.step hinv.inv hgap hok hs, hinv.numbered.step hinv.inv hs⟩
  obtain ⟨s, outs, hrun, hinv⟩ := run_total (fun _ => True) (fun _ _ s => EpochInv capacity s)
    (fun _ => trivial) hinit (fun _ hinv hok => hstep hinv hok) trivial hok
  exact ⟨s, outs, hrun, hinv.epoch, fun data buf info q hparse hok hq hseq =>
    hinv.duplicate h3 hparse hok hq hseq⟩

theorem jbufRun_epoch_repeated :
    ∃ s outs s' r, run jbufStep (rtpjbufCtor 4)
        [.udpIn 0 (datagram 65100), .udpIn 1 (datagram 5)] = some (s, outs) ∧
      s.lseqMask = s.lastMaxLseq - s.lastMaxLseq % 65536 ∧
      jbufStep s (.udpIn 2 (datagram 65100)) = some (s', r) ∧ s'.dropDup = 1 := by
  obtain ⟨s, outs, hrun, hepoch, hdup⟩ := jbufRun_epoch (by decide : 3 ≤ 4) (by decide)
    (by decide : Always jbufStep (fun s call => call.epochOk s) (rtpjbufCtor 4)
      [.udpIn 0 (datagram 65100), .udpIn 1 (datagram 5)])
  have hget : s = ((run jbufStep (rtpjbufCtor 4)
      [.udpIn 0 (datagram 65100), .udpIn 1 (datagram 5)]).get (by decide)).1 := by simp [hrun]
  obtain ⟨s', r, hs, -, hcount, -⟩ := (hdup 2 (datagram 65100)
    ((parsed (datagram 65100)).get (by decide)) (s.head.head (by rw [hget]; decide)) (by decide)
    (by rw [hget]; decide) (by subst hget; decide) (by subst hget; decide)).2 (by subst hget; decide)
  exact ⟨s, outs, s', r, hrun, hepoch (by subst hget; decide), hs,
    by rw [hcount]; subst hget; decide⟩

/-- The purge moves `last_max_lseq` back over the wrap but leaves the epoch: the
repeated datagram 65100 is held a second time, under another number. -/
theorem purge_breaks_epoch :
    Always jbufStep (fun s call => call.preWrapOk s) (rtpjbufCtor 3)
      [.udpIn 0 (datagram 65100), .udpIn 1 (datagram 5), .udpIn 2 [], .udpIn 3 [], .udpIn 4 [],
        .udpIn 5 (datagram 65100)] ∧
    (run jbufStep (rtpjbufCtor 3)
      [.udpIn 0 (datagram 65100), .udpIn 1 (datagram 5), .udpIn 2 [], .udpIn 3 [],
        .udpIn 4 []]).map (fun p => (p.1.lastMaxLseq, p.1.lseqMask, lseqs p.1)) =
      some (65100, 65536, [65100]) ∧
    (run jbufStep (rtpjbufCtor 3)
      [.udpIn 0 (datagram 65100), .udpIn 1 (datagram 5), .udpIn 2 [], .udpIn 3 [], .udpIn 4 [],
        .udpIn 5 (datagram 65100)]).map (fun p => (p.1.dropDup, lseqs p.1)) =
      some (0, [65100, 130636]) := by
  decide

end Rtp
