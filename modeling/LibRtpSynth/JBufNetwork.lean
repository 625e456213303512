/-
The jitter buffer behind a network.

Datagrams come through a network that loses, repeats, reorders and damages them
(`Channel`).  As long as the reordering is bounded by `c - 2` for a buffer of
capacity `c` (`Channel.Loose`) and every number is near the largest one so far, the
buffer holds back no more than it has to and gives up no packet: nothing is purged,
and a number that it gave up is behind so many larger ones that it cannot come any
more (`NetInv`).

* `jbufRun_network` — what was delivered and what is held are the packets that came,
  each once, in order; the copies are dropped;
* `jbufRun_losses` — the erasures report exactly the numbers that were lost.
-/
import LibRtpSynth.Channel
import LibRtpSynth.JBufReorder

open CWords Runs Channel
open scoped List

namespace Rtp

variable {s s' : RtpjbufInst} {r : RjbUdpInR} {fp : RtpPacket} {c x : ℕ} {outs : List RjbUdpInR}

/-! ### Datagrams -/

/-- A datagram kept at `data`, with the extended number it was sent with, if it comes
undamaged. -/
structure Gram where
  data : ℕ
  buf : List UInt8
  lseq : Option ℕ
  deriving DecidableEq, Repr

/-- The call that presents the datagram. -/
def Gram.call (g : Gram) : JBufCall := .udpIn g.data g.buf

/-- The datagram carries the low sixteen bits of its number; a damaged one does not
parse. -/
def Gram.Valid (g : Gram) : Prop :=
  (parsed g.buf).map (fun info => info.seq.toNat) = g.lseq.map (· % 65536)

instance (g : Gram) : Decidable g.Valid :=
  inferInstanceAs (Decidable ((parsed g.buf).map _ = g.lseq.map _))

theorem Gram.Valid.damaged {g : Gram} (h : g.Valid) (hx : g.lseq = none) : parsed g.buf = none := by
  rwa [Gram.Valid, hx, Option.map_none, Option.map_eq_none_iff] at h

theorem Gram.Valid.info {g : Gram} (h : g.Valid) (hx : g.lseq = some x) :
    ∃ info, parsed g.buf = some info ∧ info.seq.toNat = x % 65536 := by
  rwa [Gram.Valid, hx, Option.map_some, Option.map_eq_some_iff] at h

/-- The packet of the datagram, with its number. -/
def Gram.numbered (g : Gram) : Option ((ℕ × RtpInfo) × ℕ) :=
  (parsed g.buf).bind fun info => g.lseq.map fun x => ((g.data, info), x)

theorem Gram.numbered_eq {g : Gram} {info : RtpInfo} (hparse : parsed g.buf = some info)
    (hx : g.lseq = some x) : g.numbered = some ((g.data, info), x) := by
  rw [Gram.numbered, hparse, hx]
  rfl

/-- The numbers of the packets of valid datagrams. -/
theorem numbered_snd {grams : List Gram} (hgrams : ∀ g ∈ grams, g.Valid) :
    (grams.filterMap Gram.numbered).map Prod.snd = nums Gram.lseq grams := by
  rw [List.map_filterMap, nums]
  refine List.filterMap_congr fun g hg => ?_
  have hvalid := hgrams g hg
  cases hx : g.lseq with
  | none =>
    rw [Gram.numbered, hx]
    cases parsed g.buf <;> rfl
  | some x =>
    obtain ⟨info, hparse, -⟩ := hvalid.info hx
    rw [Gram.numbered_eq hparse hx]
    rfl

/-! ### Tilings -/

/-- A tiling stays between its two ends. -/
theorem Tiles.range {a b : ℕ} {fs : List RtpFrame} (h : Tiles a fs b) :
    a ≤ b ∧ (∀ y ∈ (rtps fs).map RtpPacket.lseq, a < y ∧ y ≤ b) ∧
      ∀ e, .ers e ∈ fs → a < e.lseqStart ∧ e.lseqEnd < b := by
  induction h with
  | nil a =>
    refine ⟨le_rfl, ?_, ?_⟩
    · intro y hy
      cases hy
    · intro e he
      cases he
  | @next a b p frames hp _ ih =>
    obtain ⟨hle, hnums, hers⟩ := ih
    refine ⟨by omega, ?_, ?_⟩
    · intro y hy
      rcases List.mem_cons.mp hy with rfl | hy
      · omega
      · have := hnums y hy
        omega
    · intro e he
      have := hers e (by simpa using he)
      omega
  | @gap a b e₀ p frames hstart hle₀ hend _ ih =>
    obtain ⟨hle, hnums, hers⟩ := ih
    refine ⟨by omega, ?_, ?_⟩
    · intro y hy
      rcases List.mem_cons.mp hy with rfl | hy
      · omega
      · have := hnums y hy
        omega
    · intro e he
      rcases List.mem_cons.mp he with heq | he
      · rw [RtpFrame.ers.inj heq]
        omega
      · have := hers e (by simpa using he)
        omega

/-- The stream starts with a packet and leads to `last_lseq` without a hole. -/
inductive Played (frames : List RtpFrame) (last : ℕ) : Prop
  | nothing (hframes : frames = []) (hlast : last = lrsDefault)
  | some (hlast : last < lrsDefault) (p : RtpPacket) (rest : List RtpFrame)
      (hframes : frames = .rtp p :: rest) (h : Tiles p.lseq rest last)

/-- What holds when the datagrams `grams` have come. -/
structure NetInv (c : ℕ) (grams : List Gram) (outs : List RjbUdpInR) (s : RtpjbufInst) :
    Prop where
  inv : JInv s
  capacity_eq : s.capacity = c
  ext : Extended (nums Gram.lseq grams) s
  kept : (s.head ++ delivered outs).map RtpPacket.numbered ~
    (firsts Gram.lseq grams).filterMap Gram.numbered
  dropped : (dropped outs).map RtpPacket.numbered =
    (copies Gram.lseq grams).filterMap Gram.numbered
  played : Played (stream outs) s.lastLseq
  last_mem : s.lastLseq ≠ lrsDefault → s.lastLseq ∈ nums Gram.lseq grams
  /-- A number that was given up is behind `c` larger ones. -/
  given_up : s.lastLseq ≠ lrsDefault → ∀ y < s.lastLseq, y ∉ nums Gram.lseq grams →
    c ≤ larger y (nums Gram.lseq grams)
  /-- A frame ages by what comes after it and does not go beyond it, and once by what does. -/
  age : ∀ f ∈ s.head, f.jbcnt ≤
    behind Gram.lseq f.lseq grams + if f.lseq = s.lastMaxLseq then 0 else 1

variable {grams : List Gram}

/-- A number has come exactly if it is held or was delivered. -/
theorem NetInv.mem_iff (h : NetInv c grams outs s) (hgrams : ∀ g ∈ grams, g.Valid) :
    x ∈ nums Gram.lseq grams ↔
      x ∈ lseqs s ∨ x ∈ (delivered outs).map RtpPacket.lseq := by
  have hperm := h.kept.map Prod.snd
  rw [numbered_snd fun g hg => hgrams g (firsts_sublist.subset hg), List.map_map] at hperm
  rw [← mem_nums_firsts, ← hperm.mem_iff]
  show x ∈ (s.head ++ delivered outs).map RtpPacket.lseq ↔ _
  rw [List.map_append, List.mem_append, lseqs]

theorem rtps_stream (outs : List RjbUdpInR) : rtps (stream outs) = delivered outs := by
  rw [rtps, stream, List.filterMap_flatMap, delivered]
  rfl

/-- No delivered number is above `last_lseq`. -/
theorem NetInv.delivered_le (h : NetInv c grams outs s)
    (hx : x ∈ (delivered outs).map RtpPacket.lseq) :
    s.lastLseq ≠ lrsDefault ∧ x ≤ s.lastLseq := by
  rw [← rtps_stream] at hx
  cases h.played with
  | nothing hframes =>
    rw [hframes] at hx
    cases hx
  | some hlast p rest hframes htiles =>
    refine ⟨hlast.ne, ?_⟩
    rw [hframes] at hx
    rcases List.mem_cons.mp hx with rfl | hx
    · exact htiles.range.1
    · exact (htiles.range.2.1 x hx).2

/-- The frames that are held are all new. -/
theorem NetInv.held_gt (h : NetInv c grams outs s) (hc : 3 ≤ c) (hlast : s.lastLseq ≠ lrsDefault) :
    ∀ y ∈ lseqs s, s.lastLseq < y := by
  intro y hy
  have := h.inv.last_add_two_le (h.inv.headGap (h.capacity_eq ▸ hc)) hlast y hy
  omega

/-! ### One datagram -/

/-- Nothing is purged. -/
theorem NetInv.purges (h : NetInv c grams outs s) {g : Gram} {later : List Gram} (hc : 3 ≤ c)
    (hgrams : ∀ g ∈ grams, g.Valid)
    (hloose : Loose Gram.lseq (c - 2) (grams ++ g :: later)) : (purgeStaleTail s).1 = none := by
  rcases purgeStaleTail_cases s with ⟨heq, -⟩ | ⟨prev, tail, hhead, -, ⟨-, heq⟩ | ⟨hold, -⟩⟩
  · rw [heq]
  · rw [heq]
  · -- the tail has not been overtaken often enough
    have hmem : tail ∈ s.head := by rw [hhead]; simp
    have hcame : tail.lseq ∈ nums Gram.lseq grams :=
      (h.mem_iff hgrams).mpr (.inl (List.mem_map_of_mem hmem))
    have hmax : s.lastMaxLseq = tail.lseq := by
      refine h.inv.tail _ ?_
      rw [lseqs, hhead, List.map_append]
      simp
    have hage := h.age tail hmem
    rw [if_pos hmax.symm] at hage
    have hbound := hloose.later_of_append hcame
    have hcap := h.inv.size.capacity_lt
    have haged : tail.aged.jbcnt = tail.jbcnt + 1 := by
      show add64 tail.jbcnt 1 = _
      have := h.capacity_eq
      exact add64_of_lt (by omega)
    have := h.capacity_eq
    omega

/-- A datagram more leaves room for what the purge adds to the age of the tail. -/
theorem NetInv.age_room (h : NetInv c grams outs s) (hgrams : ∀ g ∈ grams, g.Valid) (g : Gram)
    {m : ℕ} (hm : m = g.lseq.elim s.lastMaxLseq (max s.lastMaxLseq)) :
    ∀ f ∈ s.head, (f.jbcnt + if f.lseq = s.lastMaxLseq then 1 else 0) ≤
      behind Gram.lseq f.lseq (grams ++ [g]) + if f.lseq = m then 0 else 1 := by
  intro f hf
  have hcame : f.lseq ∈ nums Gram.lseq grams :=
    (h.mem_iff hgrams).mpr (.inl (List.mem_map_of_mem hf))
  have hle : f.lseq ≤ s.lastMaxLseq := h.inv.le_max _ (List.mem_map_of_mem hf)
  have hage := h.age f hf
  rw [behind_concat hcame]
  by_cases htail : f.lseq = s.lastMaxLseq
  · rw [if_pos htail] at hage ⊢
    cases hx : g.lseq with
    | none => simp; omega
    | some x =>
      rw [hx, Option.elim_some] at hm
      rcases Nat.lt_or_ge s.lastMaxLseq x with hlt | hge
      · -- the tail has been overtaken
        rw [if_neg (show f.lseq ≠ m by omega)]
        omega
      · rw [if_pos (by rintro y hy; cases hy; omega)]
        omega
  · have hmax : s.lastMaxLseq ≤ m := by
      rw [hm]
      cases g.lseq with
      | none => exact le_rfl
      | some x => exact le_max_left _ _
    rw [if_neg htail] at hage ⊢
    rw [if_neg (show f.lseq ≠ m by omega)]
    omega

/-- The ages after the purge, when one more datagram has come. -/
theorem NetInv.age_purge (h : NetInv c grams outs s) (hgrams : ∀ g ∈ grams, g.Valid)
    (hnone : (purgeStaleTail s).1 = none) (g : Gram) {m : ℕ}
    (hm : m = g.lseq.elim s.lastMaxLseq (max s.lastMaxLseq)) :
    ∀ f ∈ (purgeStaleTail s).2.head, f.jbcnt ≤
      behind Gram.lseq f.lseq (grams ++ [g]) + if f.lseq = m then 0 else 1 := by
  have hroom := h.age_room hgrams g hm
  rcases purgeStaleTail_cases s with ⟨heq, -⟩ | ⟨prev, tail, hhead, -, ⟨-, heq⟩ | ⟨-, heq⟩⟩
  · rw [heq]
    intro f hf
    exact (Nat.le_add_right _ _).trans (hroom f hf)
  · rw [heq]
    rw [hhead] at hroom
    intro f hf
    rcases List.mem_append.mp hf with hf | hf
    · exact (Nat.le_add_right _ _).trans (hroom f (List.mem_append_left _ hf))
    · obtain rfl := List.mem_singleton.mp hf
      have htail := hroom tail (List.mem_append_right _ (List.mem_singleton_self _))
      rw [if_pos (h.inv.tail _ (by rw [lseqs, hhead, List.map_append]; simp)).symm] at htail
      exact (Nat.mod_le _ _).trans htail
  · rw [heq] at hnone
    cases hnone

/-! ### A new number -/

/-- The first frame of a new buffer is a packet. -/
theorem Placed.first_rtp {drop : List RtpPacket} (hwarm : s.lastLseq = lrsDefault)
    (hp : Placed s fp drop s' r) : ∀ f ∈ r.ready.head?, f.isRtp := by
  cases hp with
  | late | lateDup | dup | hold | insert =>
    intro f hf
    cases hf
  | deliver =>
    intro f hf
    cases hf
    rfl
  | release pre post f₀ run ifp next hins hrel =>
    have hwarm : (insertedInst s fp pre post).lastLseq = lrsDefault := hwarm
    rw [releasedReady, if_pos hwarm, List.nil_append, List.head?_map, hrel.first]
    intro f hf
    cases hf
    rfl

/-- A call carries the stream on. -/
theorem Played.step {frames ready : List RtpFrame} {last last' : ℕ} (h : Played frames last)
    (hr : Delivers last last' ready)
    (hfirst : last = lrsDefault → ∀ f ∈ ready.head?, f.isRtp) : Played (frames ++ ready) last' := by
  cases hr with
  | nothing hready hlast =>
    rw [hready, hlast, List.append_nil]
    exact h
  | more hwarm _ hlast htiles =>
    cases h with
    | nothing _ hl => exact absurd hl hwarm
    | some _ p rest hframes h =>
      exact .some hlast p (rest ++ ready) (by rw [hframes]; rfl) (h.append htiles)
  | start hwarm hlast es hes p rest hready htiles =>
    cases h with
    | nothing hframes =>
      refine .some hlast p rest ?_ htiles
      rw [hframes, hready, List.nil_append]
      cases es with
      | nil => rfl
      | cons f es =>
        have h1 := hes f List.mem_cons_self
        have h2 := hfirst hwarm f (by rw [hready]; rfl)
        rw [h1] at h2
        cases h2
    | some hl => exact absurd hwarm hl.ne

/-- A number below the frames of a released run that has not come: so many larger ones were
held when the buffer was full, or it was given up before. -/
theorem NetInv.released (h : NetInv c grams outs s) (hc : 3 ≤ c) {t : RtpjbufInst}
    (hgrams : ∀ g ∈ grams, g.Valid) {g : Gram} (hx : g.lseq = some fp.lseq) (ht : JInv t)
    (hls : lseqs t = lseqs s) (htlast : t.lastLseq = s.lastLseq) (htcap : t.capacity = c)
    (hxlt : fp.lseq < 2 ^ 63) {pre post : List RtpPacket} {f₀ ifp : RtpPacket}
    {run next : List RtpPacket} (hins : Inserted t fp pre post)
    (hrel : Released (insertedInst t fp pre post) f₀ run ifp next) :
    ifp.lseq ∈ nums Gram.lseq (grams ++ [g]) ∧
    ∀ y < ifp.lseq, y ∉ nums Gram.lseq (grams ++ [g]) →
      c ≤ larger y (nums Gram.lseq (grams ++ [g])) := by
  obtain ⟨hasc, hlt, -⟩ := hins.inv ht (lt_lmsDefault hxlt)
  obtain ⟨hnums, hifp, hmem₀, hmin⟩ := hrel.numbers hasc hlt
  rw [nums_concat_some hx]
  -- what is held has come
  have hsub : lseqs (insertedInst t fp pre post) ⊆ nums Gram.lseq grams ++ [fp.lseq] := by
    intro y hy
    have hold : y ∈ lseqs s ↔ y ∈ pre.map RtpPacket.lseq ∨ y ∈ post.map RtpPacket.lseq := by
      rw [← hls, lseqs, hins.head, List.map_append, List.mem_append]
    rw [lseqs_insertedInst, List.mem_append, List.mem_cons] at hy
    rw [List.mem_append, List.mem_singleton]
    rcases hy with hy | rfl | hy
    · exact .inl ((h.mem_iff hgrams).mpr (.inl (hold.mpr (.inl hy))))
    · exact .inr rfl
    · exact .inl ((h.mem_iff hgrams).mpr (.inl (hold.mpr (.inr hy))))
  have hrun : ∀ y ∈ (run ++ [ifp]).map RtpPacket.lseq, y ∈ lseqs (insertedInst t fp pre post) := by
    intro y hy
    rw [hrel.lseqs_eq, List.append_cons]
    rw [List.map_append] at hy
    exact List.mem_append_left _ hy
  refine ⟨hsub (hrun _ (by simp)), ?_⟩
  intro y hy hout
  have hlow : y < f₀.lseq := by
    by_contra hge
    refine hout (hsub (hrun y ?_))
    rw [hnums, List.mem_range'_1]
    omega
  rcases hrel.trigger with hfull | ⟨hwarm, hnext⟩
  · -- the buffer was full
    have hsize : add32 t.size 1 = t.capacity := hfull
    have hbound := ht.size.bound
    have hcap := ht.size.capacity_lt
    rw [effCapacity, if_neg (by omega)] at hbound
    rw [ht.size.size, add32] at hsize
    have hlen : (lseqs (insertedInst t fp pre post)).length = c := by
      have hlen := congrArg List.length hins.head
      rw [List.length_append] at hlen
      rw [lseqs_length]
      show (pre ++ fp :: post).length = c
      rw [List.length_append, List.length_cons]
      omega
    rw [← hlen]
    exact length_le_larger (hasc.imp fun h => h.ne) hsub fun z hz => hlow.trans_le (hmin z hz)
  · have hwarm : t.lastLseq ≠ lrsDefault := hwarm
    have hnext : f₀.lseq = add64 t.lastLseq 1 := hnext
    rw [htlast] at hwarm hnext
    have hlast := h.inv.last_le
    rw [add64_of_lt (by unfold lrsDefault at *; omega)] at hnext
    have hne : y ≠ s.lastLseq := by
      rintro rfl
      exact hout (List.mem_append_left _ (h.last_mem hwarm))
    exact (h.given_up hwarm y (by omega) fun hmem => hout (List.mem_append_left _ hmem)).trans
      (larger_mono (List.subset_append_left _ _))

/-- A new number does not come late. -/
theorem NetInv.not_late (h : NetInv c grams outs s) (hc : 3 ≤ c) {g : Gram} {later : List Gram}
    (hloose : Loose Gram.lseq (c - 2) (grams ++ g :: later)) (hx : g.lseq = some x)
    (hnew : x ∉ nums Gram.lseq grams) (hwarm : s.lastLseq ≠ lrsDefault) : s.lastLseq < x := by
  by_contra hle
  have hne : x ≠ s.lastLseq := by
    rintro rfl
    exact hnew (h.last_mem hwarm)
  have h1 := h.given_up hwarm x (by omega) hnew
  have h2 := hloose.earlier_of_append hx hnew
  omega

/-- A packet with a new number is not dropped, and what is given up for it cannot come any
more. -/
theorem NetInv.fresh (h : NetInv c grams outs s) (hc : 3 ≤ c) {t : RtpjbufInst}
    (hgrams : ∀ g ∈ grams, g.Valid) {g : Gram} {later : List Gram}
    (hloose : Loose Gram.lseq (c - 2) (grams ++ g :: later)) (hx : g.lseq = some fp.lseq)
    (hnew : fp.lseq ∉ nums Gram.lseq grams) (ht : JInv t) (hls : lseqs t = lseqs s)
    (htlast : t.lastLseq = s.lastLseq) (htcap : t.capacity = c) (hxlt : fp.lseq < 2 ^ 63)
    (hp : Placed t fp [] s' r) :
    r.drop = [] ∧ (s'.lastLseq ≠ lrsDefault →
      s'.lastLseq ∈ nums Gram.lseq (grams ++ [g]) ∧
      ∀ y < s'.lastLseq, y ∉ nums Gram.lseq (grams ++ [g]) →
        c ≤ larger y (nums Gram.lseq (grams ++ [g]))) := by
  have hnums : nums Gram.lseq (grams ++ [g]) = nums Gram.lseq grams ++ [fp.lseq] := nums_concat_some hx
  have hsub : nums Gram.lseq grams ⊆ nums Gram.lseq (grams ++ [g]) := by
    rw [hnums]
    exact List.subset_append_left _ _
  have hlate := h.not_late hc hloose hx hnew
  have hsame : t.lastLseq ≠ lrsDefault → t.lastLseq ∈ nums Gram.lseq (grams ++ [g]) ∧
      ∀ y < t.lastLseq, y ∉ nums Gram.lseq (grams ++ [g]) →
        c ≤ larger y (nums Gram.lseq (grams ++ [g])) := by
    rw [htlast]
    intro hwarm
    refine ⟨hsub (h.last_mem hwarm), fun y hy hout => ?_⟩
    exact (h.given_up hwarm y hy fun hmem => hout (hsub hmem)).trans (larger_mono hsub)
  cases hp with
  | late _ hwarm hle | lateDup _ hwarm hle =>
    rw [htlast] at hwarm hle
    exact absurd (hlate hwarm) (by omega)
  | dup q _ _ hq heq =>
    have hmem : q.lseq ∈ lseqs t := List.mem_map_of_mem hq
    rw [hls, heq] at hmem
    exact absurd ((h.mem_iff hgrams).mpr (.inl hmem)) hnew
  | deliver hhead hmax hnext =>
    refine ⟨rfl, fun _ => ⟨by rw [hnums]; simp, fun y hy hout => ?_⟩⟩
    have hy : y < fp.lseq := hy
    rcases hnext with ⟨hwarm, hlast, hlt⟩ | ⟨-, hzero⟩
    · -- the number in front was the last delivered one
      rw [sub64_of_le (by omega) (by omega)] at hlast
      have hne : y ≠ t.lastLseq := by
        rintro rfl
        exact hout (hsame hwarm).1
      exact (hsame hwarm).2 y (by omega) hout
    · omega
  | hold hhead => exact ⟨rfl, hsame⟩
  | insert pre post hins => exact ⟨rfl, hsame⟩
  | release pre post f₀ run ifp next hins hrel =>
    exact ⟨rfl, fun _ => h.released hc hgrams hx ht hls htlast htcap hxlt hins hrel⟩

/-! ### A copy -/

/-- A packet whose number has come before is dropped, and nothing else happens. -/
theorem NetInv.repeated (h : NetInv c grams outs s) (hc : 3 ≤ c) {t : RtpjbufInst}
    (hgrams : ∀ g ∈ grams, g.Valid) (hold : fp.lseq ∈ nums Gram.lseq grams) (ht : JInv t)
    (hls : lseqs t = lseqs s) (htlast : t.lastLseq = s.lastLseq)
    (htmax : t.lastMaxLseq = s.lastMaxLseq) (htcap : t.capacity = c) (hp : Placed t fp [] s' r) :
    r = ⟨0, [], [fp]⟩ ∧ s'.head = t.head ∧ s'.lastLseq = s.lastLseq := by
  rcases (h.mem_iff hgrams).mp hold with hheld | hdel
  · rw [← hls] at hheld
    obtain ⟨q, hq, heq⟩ := List.mem_map.mp hheld
    obtain ⟨rfl, rfl⟩ := hp.of_held ht (ht.headGap (htcap ▸ hc)) hq heq
    exact ⟨rfl, rfl, htlast⟩
  · obtain ⟨hwarm, hle⟩ := h.delivered_le hdel
    -- the numbers so far are not above the largest one
    have hne : nums Gram.lseq grams ≠ [] := List.ne_nil_of_mem hold
    have hmax : t.lastMaxLseq = maxOf (nums Gram.lseq grams) := by
      rw [htmax, h.ext.lastMax, if_neg hne]
    have hbound := h.ext.bound
    have hlemax := le_maxOf hold
    have hset : t.lastMaxLseq ≠ lmsDefault := (hmax ▸ lt_lmsDefault hbound).ne
    rw [← htlast] at hwarm hle
    cases hp with
    | late => exact ⟨rfl, rfl, htlast⟩
    | lateDup => exact ⟨rfl, rfl, htlast⟩
    | dup => exact ⟨rfl, rfl, htlast⟩
    | deliver hhead hm =>
      have := hm.resolve_left hset
      omega
    | hold hhead hm =>
      have := (hm.resolve_left hset).1
      omega
    | insert pre post hins | release pre post f₀ run ifp next hins =>
      have := hins.fresh.resolve_left hwarm
      omega

/-! ### The next datagram -/

/-- A purge that removes nothing leaves every frame but its age. -/
theorem purgeStaleTail_numbered (hnone : (purgeStaleTail s).1 = none) :
    (purgeStaleTail s).2.head.map RtpPacket.numbered ~ s.head.map RtpPacket.numbered := by
  have hperm := purgeStaleTail_perm s
  rw [hnone, Option.toList_none, List.append_nil] at hperm
  have hcore := hperm.map RtpPacket.numbered
  rwa [List.map_map, List.map_map] at hcore

/-- A damaged datagram ages the tail at most. -/
theorem NetInv.damaged (h : NetInv c grams outs s) (hgrams : ∀ g ∈ grams, g.Valid) {g : Gram}
    (hg : g.lseq = none) (hext : Extended (nums Gram.lseq (grams ++ [g])) s') (hinv : JInv s')
    (hnone : (purgeStaleTail s).1 = none)
    (hhead : s'.head = (purgeStaleTail s).2.head)
    (hlast : s'.lastLseq = s.lastLseq) (hmax : s'.lastMaxLseq = s.lastMaxLseq)
    (hcap : s'.capacity = c) (hready : r.ready = []) (hdrop : r.drop = []) :
    NetInv c (grams ++ [g]) (outs ++ [r]) s' where
  inv := hinv
  capacity_eq := hcap
  ext := hext
  kept := by
    rw [delivered_concat, hready, firsts_concat_none hg, hhead, List.map_append, List.map_append]
    exact ((purgeStaleTail_numbered hnone).append_right _).trans (by simpa [rtps] using h.kept)
  dropped := by rw [dropped_concat, hdrop, copies_concat_none hg, List.append_nil, h.dropped]
  played := by
    rw [stream_concat, hready, List.append_nil, hlast]
    exact h.played
  last_mem := by
    rw [hlast, nums_concat_none hg]
    exact h.last_mem
  given_up := by
    rw [hlast, nums_concat_none hg]
    exact h.given_up
  age := by
    rw [hhead, hmax]
    exact h.age_purge hgrams hnone g (by rw [hg]; rfl)

/-- A packet is held or delivered if its number is new, and dropped if not. -/
theorem NetInv.placed (h : NetInv c grams outs s) (hc : 3 ≤ c) (hgrams : ∀ g ∈ grams, g.Valid)
    {g : Gram} {later : List Gram} (hloose : Loose Gram.lseq (c - 2) (grams ++ g :: later))
    {info : RtpInfo} (hparse : parsed g.buf = some info) (hx : g.lseq = some x)
    (hwin : InWindow (nums Gram.lseq grams) x) (hseq : info.seq.toNat = x % 65536)
    (hnone : (purgeStaleTail s).1 = none) (hs : jbufStep s g.call = some (s', r)) (hinv : JInv s')
    (hext : Extended (nums Gram.lseq (grams ++ [g])) s')
    (hp : Placed (assign (purgeStaleTail s).2 info.seq).1
      ⟨info, (assign (purgeStaleTail s).2 info.seq).2, 0, g.data⟩ [] s' r) :
    NetInv c (grams ++ [g]) (outs ++ [r]) s' := by
  have hnum := ((h.ext.purge hnone).assign hwin hseq).1
  have ht := h.inv.purge.assign info.seq
  have hls : lseqs (assign (purgeStaleTail s).2 info.seq).1 = lseqs s := by
    rw [lseqs_assign]
    rcases purgeStaleTail_lseqs h.inv with ⟨hls, -, -⟩ | ⟨q, _, hsome, -⟩
    · exact hls
    · rw [hnone] at hsome
      cases hsome
  have htlast : (assign (purgeStaleTail s).2 info.seq).1.lastLseq = s.lastLseq := by
    rw [assign_lastLseq, purgeStaleTail_lastLseq]
  have htcap : (assign (purgeStaleTail s).2 info.seq).1.capacity = c := by
    rw [assign_capacity, purgeStaleTail_capacity, h.capacity_eq]
  have htmax : (assign (purgeStaleTail s).2 info.seq).1.lastMaxLseq = s.lastMaxLseq := by
    rw [assign_lastMaxLseq, (purgeStaleTail_of_none hnone).1]
  have hthead : (assign (purgeStaleTail s).2 info.seq).1.head = (purgeStaleTail s).2.head :=
    assign_head _ _
  have hnumbered := purgeStaleTail_numbered hnone
  have hage := h.age_purge hgrams hnone g rfl
  rw [hx, Option.elim_some] at hage
  rw [← hthead] at hnumbered hage
  generalize (assign (purgeStaleTail s).2 info.seq).1 = t at *
  rw [hnum] at hp
  have hmax := hp.lastMax_eq ht (ht.headGap (htcap ▸ hc))
  have hplayed : Played (stream (outs ++ [r])) s'.lastLseq := by
    rw [stream_concat]
    have hdel := hp.delivers ht (lt_lmsDefault hwin.1)
    rw [htlast] at hdel
    exact h.played.step hdel fun hwarm => hp.first_rtp (htlast.trans hwarm)
  have hages : ∀ f ∈ s'.head, f.jbcnt ≤
      behind Gram.lseq f.lseq (grams ++ [g]) + if f.lseq = s'.lastMaxLseq then 0 else 1 := by
    intro f hf
    have hmem := hp.perm.subset (List.mem_append_left _ hf)
    rcases List.mem_append.mp hmem with hmem | hmem
    · have hset : s.lastMaxLseq ≠ lmsDefault := by
        intro hunset
        rw [ht.head_nil_of_max (htmax.trans hunset)] at hmem
        cases hmem
      rw [hmax, htmax, if_neg hset]
      exact hage f hmem
    · obtain rfl := List.mem_singleton.mp hmem
      exact Nat.zero_le _
  by_cases hold : x ∈ nums Gram.lseq grams
  · obtain ⟨rfl, hhead, hlast⟩ := h.repeated hc hgrams hold ht hls htlast htmax htcap hp
    refine ⟨hinv, (jbufStep_capacity hs).trans h.capacity_eq, hext, ?_, ?_, hplayed, ?_, ?_, hages⟩
    · rw [firsts_concat_old hx hold, delivered_concat, hhead, List.map_append, List.map_append]
      exact (hnumbered.append_right _).trans (by simpa [rtps] using h.kept)
    · rw [copies_concat_old hx hold, dropped_concat, List.map_append, h.dropped,
        List.filterMap_append, List.filterMap_cons_some (Gram.numbered_eq hparse hx)]
      rfl
    · rw [hlast, nums_concat_some hx]
      exact fun hwarm => List.mem_append_left _ (h.last_mem hwarm)
    · rw [hlast, nums_concat_some hx]
      intro hwarm y hy hout
      exact (h.given_up hwarm y hy fun hmem => hout (List.mem_append_left _ hmem)).trans
        (larger_mono (List.subset_append_left _ _))
  · obtain ⟨hdrop, hgiven⟩ :=
      h.fresh hc hgrams hloose hx hold ht hls htlast htcap hwin.1 hp
    have hperm := hp.perm
    rw [RjbUdpInR.packets, hdrop, List.append_nil] at hperm
    refine ⟨hinv, (jbufStep_capacity hs).trans h.capacity_eq, hext, ?_, ?_, hplayed,
      fun hwarm => (hgiven hwarm).1, fun hwarm => (hgiven hwarm).2, hages⟩
    · rw [firsts_concat_new hx hold, delivered_concat, List.filterMap_append,
        List.filterMap_cons_some (Gram.numbered_eq hparse hx)]
      -- what was held and the new packet are held or delivered
      have hcall : s'.head.map RtpPacket.numbered ++ (rtps r.ready).map RtpPacket.numbered ~
          s.head.map RtpPacket.numbered ++ [((g.data, info), x)] := by
        have hmap := hperm.map RtpPacket.numbered
        rw [List.map_append, List.map_append] at hmap
        exact hmap.trans (hnumbered.append_right _)
      have hkept := h.kept
      rw [List.map_append] at hkept ⊢
      rw [List.map_append]
      refine List.Perm.trans ?_ (hkept.append_right _)
      refine (List.perm_append_comm.append_left _).trans ?_
      rw [← List.append_assoc]
      refine (hcall.append_right _).trans ?_
      rw [List.append_assoc, List.append_assoc]
      exact List.perm_append_comm.append_left _
    · rw [copies_concat_new hx hold, dropped_concat, hdrop, List.append_nil, h.dropped]

/-- **One datagram more.** -/
theorem NetInv.step (h : NetInv c grams outs s) (hc : 3 ≤ c) (hgrams : ∀ g ∈ grams, g.Valid)
    {g : Gram} {later : List Gram} (hg : g.Valid)
    (hwin : ∀ x ∈ g.lseq, InWindow (nums Gram.lseq grams) x)
    (hloose : Loose Gram.lseq (c - 2) (grams ++ g :: later)) :
    ∃ s' r, jbufStep s g.call = some (s', r) ∧ NetInv c (grams ++ [g]) (outs ++ [r]) s' := by
  have hs3 : 3 ≤ s.capacity := h.capacity_eq ▸ hc
  have hgap := h.inv.headGap hs3
  have hnone := h.purges hc hgrams hloose
  have hpurges : g.call.purgesNothing s := hnone
  cases hx : g.lseq with
  | none =>
    have hparse := hg.damaged hx
    have hacc : g.call.accepted = none := by
      rw [Gram.call, JBufCall.accepted, hparse]
      rfl
    obtain ⟨s', r, hs, hinv', -⟩ := jbufStep_total h.inv hgap (notSentinel_of_none hacc)
      (h.inv.fresh hs3 _)
    have hext := h.ext.step_none hpurges hacc hs
    refine ⟨s', r, hs, ?_⟩
    have hcap := (jbufStep_capacity hs).trans h.capacity_eq
    rw [Gram.call] at hs
    cases jbufStep_cases hs with
    | rejected e hparse =>
      exact h.damaged hgrams hx (by rw [nums_concat_none hx]; exact hext) hinv' hnone rfl
        (purgeStaleTail_lastLseq s) (purgeStaleTail_of_none hnone).1 hcap rfl
        (by show (purgeStaleTail s).1.toList = []; rw [hnone]; rfl)
    | placed info hparse' =>
      rw [hparse] at hparse'
      cases hparse'
  | some x =>
    obtain ⟨info, hparse, hseq⟩ := hg.info hx
    have hwin := hwin x hx
    have hacc : g.call.accepted = some (g.data, info) := by
      rw [Gram.call, JBufCall.accepted, hparse]
      rfl
    obtain ⟨s', r, hs, hinv', -⟩ := jbufStep_total h.inv hgap
      (h.ext.notSentinel hpurges hacc hwin hseq) (h.inv.fresh hs3 _)
    obtain ⟨hext, -⟩ := h.ext.step h.inv hgap hpurges hacc hwin hseq hs
    have hcap := (jbufStep_capacity hs).trans h.capacity_eq
    refine ⟨s', r, hs, ?_⟩
    rw [Gram.call] at hs
    cases jbufStep_cases hs with
    | rejected e hparse' =>
      rw [hparse'] at hparse
      cases hparse
    | placed info' hparse' hplaced =>
      rw [hparse', Option.some.injEq] at hparse
      subst hparse
      rw [hnone, Option.toList_none] at hplaced
      exact h.placed hc hgrams hloose hparse' hx hwin hseq hnone hs hinv'
        (by rw [nums_concat_some hx]; exact hext) hplaced

/-! ### Runs -/

/-- The last delivered packet has the number `last_lseq`. -/
theorem NetInv.getLast (h : NetInv c grams outs s) {p : RtpPacket}
    (hp : p ∈ (delivered outs).getLast?) : s.lastLseq ≠ lrsDefault ∧ p.lseq = s.lastLseq := by
  rw [← rtps_stream] at hp
  cases h.played with
  | nothing hframes =>
    rw [hframes] at hp
    cases hp
  | some hlast p₀ rest hframes htiles =>
    refine ⟨hlast.ne, ?_⟩
    obtain ⟨q, hq, hqlast⟩ := htiles.getLast
    obtain ⟨front, hfront⟩ := List.getLast?_eq_some_iff.mp hq
    rw [hframes, hfront, rtps_append] at hp
    have hpq : (rtps front ++ [q]).getLast? = some p := hp
    rw [List.getLast?_concat, Option.some.injEq] at hpq
    rw [← hpq, hqlast]

/-- The numbers of what was delivered and then of what is held ascend. -/
theorem NetInv.asc (h : NetInv c grams outs s) (hc : 3 ≤ c) :
    ((delivered outs ++ s.head).map RtpPacket.lseq).Pairwise (· < ·) := by
  rw [List.map_append, List.pairwise_append]
  refine ⟨?_, h.inv.asc, fun x hx y hy => ?_⟩
  · rw [← rtps_stream]
    cases h.played with
    | nothing hframes =>
      rw [hframes]
      exact List.Pairwise.nil
    | some hlast p rest hframes htiles =>
      rw [hframes]
      exact htiles.increasing
  · obtain ⟨hwarm, hle⟩ := h.delivered_le hx
    exact hle.trans_lt (h.held_gt hc hwarm y hy)

end Rtp
