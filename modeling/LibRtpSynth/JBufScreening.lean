/-
What the jitter buffer keeps out of the stream: malformed, late and repeated
datagrams.

A datagram that does not parse still ages the tail of a buffer that is all but
full, and that is all it does.  `surviving` deletes the rejected datagrams that
find the buffer less full.

* `jbufRun_surviving` — deleting them changes neither the frames delivered or
  dropped nor the buffer reached, and a rejected datagram that is not deleted
  does no more than `purge_stale_tail`; `rejected_changes_stream` is a run
  where that makes a difference;
* `jbufRun_screens` — a late or a repeated packet is dropped, except when the
  stale tail has just been taken out: it may have been the only held frame, and
  with it the largest number is forgotten, or it may have had the same number;
  `late_packet_held` shows both.
-/
import LibRtpSynth.JBufDelivery
import LibRtpSynth.JBufExtension
import LibRtpSynth.JBufRelabel

open CWords Runs

namespace Rtp

variable {s s' : RtpjbufInst} {r : RjbUdpInR} {fp : RtpPacket} {drop : List RtpPacket}

/-! ### Malformed datagrams -/

/-- The buffer is not empty and has at most one place left: here
`purge_stale_tail` looks at the tail. -/
def AllButFull (s : RtpjbufInst) : Prop := s.head ≠ [] ∧ sub32 s.capacity 1 ≤ s.size

instance (s : RtpjbufInst) : Decidable (AllButFull s) :=
  inferInstanceAs (Decidable (s.head ≠ [] ∧ sub32 s.capacity 1 ≤ s.size))

theorem purgeStaleTail_of_not_allButFull (h : ¬ AllButFull s) : purgeStaleTail s = (none, s) := by
  rcases purgeStaleTail_cases s with ⟨heq, -⟩ | ⟨prev, tail, hhead, hsize, -⟩
  · exact heq
  · exact absurd ⟨by simp [hhead], hsize⟩ h

/-- What a rejected datagram does. -/
theorem jbufStep_rejected (s : RtpjbufInst) {call : JBufCall} (h : call.rejected = true) :
    ∃ e : RtpParserErr, jbufStep s call =
      some ({ (purgeStaleTail s).2 with dropPerror := add64 s.dropPerror 1 },
        ⟨e.code, [], (purgeStaleTail s).1.toList⟩) := by
  cases call with
  | flush => cases h
  | udpIn data buf =>
    obtain ⟨info, hparse, -⟩ := rtpPacketParseRaw_eq buf .zero
    have herr : firstViolated (rules buf) ≠ .ok := by
      intro hok
      rw [hok] at hparse
      rw [JBufCall.rejected, parsed_of_ok hparse] at h
      cases h
    have hcount : (purgeStaleTail s).2.dropPerror = s.dropPerror := by rw [purgeStaleTail_eq]
    refine ⟨firstViolated (rules buf), ?_⟩
    rw [jbufStep, rtpjbufUdpIn, hparse]
    dsimp only
    rw [Option.bind_some, if_pos herr, hcount]

/-- A rejected datagram that the run can do without. -/
def JBufCall.harmless (s : RtpjbufInst) (call : JBufCall) : Prop :=
  call.rejected = true ∧ ¬ AllButFull s

instance (s : RtpjbufInst) (call : JBufCall) : Decidable (call.harmless s) :=
  inferInstanceAs (Decidable (call.rejected = true ∧ ¬ AllButFull s))

/-- The calls without those whose datagram is rejected. -/
def accepting (calls : List JBufCall) : List JBufCall := calls.filter fun call => !call.rejected

/-- The calls of a run from `s` without its harmless ones.  Calls after an abort
are not made any more. -/
def surviving : RtpjbufInst → List JBufCall → List JBufCall
  | _, [] => []
  | s, call :: calls =>
    let rest :=
      match jbufStep s call with
      | some p => surviving p.1 calls
      | none => accepting calls
    if call.harmless s then rest else call :: rest

/-- What a user of the buffer sees of a run: the frames delivered, the packets
dropped, the buffer and the two numbers. -/
def observe (p : RtpjbufInst × List RjbUdpInR) :
    List RtpFrame × List RtpPacket × List RtpPacket × ℕ × ℕ :=
  (stream p.2, dropped p.2, p.1.head, p.1.lastLseq, p.1.lastMaxLseq)

/-- The result `r` comes in front of what is seen of the rest of a run. -/
def RjbUdpInR.before (r : RjbUdpInR) (v : List RtpFrame × List RtpPacket × List RtpPacket × ℕ × ℕ) :
    List RtpFrame × List RtpPacket × List RtpPacket × ℕ × ℕ :=
  (r.ready ++ v.1, r.drop ++ v.2.1, v.2.2)

theorem observe_run_cons {call : JBufCall} {calls : List JBufCall}
    (hs : jbufStep s call = some (s', r)) :
    (run jbufStep s (call :: calls)).map observe =
      ((run jbufStep s' calls).map observe).map r.before := by
  rw [run, hs, Option.bind_some, Option.map_map, Option.map_map]
  rfl

theorem relabel_id (k : ℕ) (s : RtpjbufInst) : s.relabel id k = { s with dropPerror := k } := by
  have hid : RtpPacket.relabel id = id := rfl
  rw [RtpjbufInst.relabel, hid, List.map_id]

theorem JBufCall.relabel_id (call : JBufCall) : call.relabel id = call := by
  cases call <;> rfl

theorem RjbUdpInR.relabel_id (r : RjbUdpInR) : r.relabel id = r := by
  have hid : RtpFrame.relabel id = id := by
    funext f
    cases f <;> rfl
  have hid' : RtpPacket.relabel id = id := rfl
  rw [RjbUdpInR.relabel, hid, hid', List.map_id, List.map_id]

/-- **Two runs, with and without the harmless calls**, look the same.  The
states of the second differ in the counter of rejected datagrams only. -/
theorem observe_surviving : ∀ (calls : List JBufCall) (s : RtpjbufInst) (k : ℕ),
    (run jbufStep s calls).map observe =
      (run jbufStep (s.relabel id k) (surviving s calls)).map observe := by
  intro calls
  induction calls with
  | nil =>
    intro s k
    rw [relabel_id]
    rfl
  | cons call calls ih =>
    intro s k
    rw [surviving]
    by_cases hh : call.harmless s
    · -- the call leaves everything but the counter, and returns nothing
      obtain ⟨e, hs⟩ := jbufStep_rejected s hh.1
      rw [purgeStaleTail_of_not_allButFull hh.2] at hs
      rw [if_pos hh, observe_run_cons hs, hs]
      have hsame : s.relabel id k =
          ({ s with dropPerror := add64 s.dropPerror 1 } : RtpjbufInst).relabel id k := by
        rw [relabel_id, relabel_id]
      rw [hsame, ← ih, Option.map_map]
      rfl
    · have hrel := jbufStep_relabel id k s call
      rw [JBufCall.relabel_id] at hrel
      rw [if_neg hh]
      cases hs : jbufStep s call with
      | none =>
        rw [hs] at hrel
        rw [run, run, hs, hrel]
        rfl
      | some p =>
        rw [hs, Option.map_some, relabelOut, RjbUdpInR.relabel_id] at hrel
        rw [observe_run_cons hs, observe_run_cons hrel, ← ih]

/-- Where every rejected datagram is harmless, they are all deleted. -/
theorem surviving_eq_accepting : ∀ {calls : List JBufCall} {s : RtpjbufInst},
    Always jbufStep (fun s call => call.rejected = true → ¬ AllButFull s) s calls →
    surviving s calls = accepting calls := by
  intro calls
  induction calls with
  | nil =>
    intro s _
    rfl
  | cons call calls ih =>
    intro s hok
    have hrest : (match jbufStep s call with
        | some p => surviving p.1 calls
        | none => accepting calls) = accepting calls := by
      cases hs : jbufStep s call with
      | none => rfl
      | some p => exact ih (hok.2 p hs)
    rw [surviving, hrest]
    by_cases hrej : call.rejected = true
    · rw [if_pos ⟨hrej, hok.1 hrej⟩, accepting, accepting,
        List.filter_cons_of_neg (by simp [hrej])]
    · rw [if_neg fun hh => hrej hh.1, accepting, accepting,
        List.filter_cons_of_pos (by simp [hrej])]

/-- **Malformed datagrams act on the stream by ageing alone.**  Those that find
the buffer less than all but full can be deleted from a run; the others do what
`purge_stale_tail` does.  In particular all of them can be deleted when none
finds the buffer all but full. -/
theorem jbufRun_surviving (capacity : ℕ) (calls : List JBufCall) :
    (run jbufStep (rtpjbufCtor capacity) calls).map observe =
      (run jbufStep (rtpjbufCtor capacity) (surviving (rtpjbufCtor capacity) calls)).map observe ∧
    (Always jbufStep (fun s call => call.rejected = true → ¬ AllButFull s)
        (rtpjbufCtor capacity) calls →
      (run jbufStep (rtpjbufCtor capacity) calls).map observe =
        (run jbufStep (rtpjbufCtor capacity) (accepting calls)).map observe) ∧
    ∀ (s : RtpjbufInst) (call : JBufCall), call.rejected = true →
      ∃ e : RtpParserErr, jbufStep s call =
        some ({ (purgeStaleTail s).2 with dropPerror := add64 s.dropPerror 1 },
          ⟨e.code, [], (purgeStaleTail s).1.toList⟩) := by
  have h := observe_surviving calls (rtpjbufCtor capacity) 0
  rw [relabel_id] at h
  refine ⟨h, fun hok => ?_, fun s call hrej => jbufStep_rejected s hrej⟩
  rw [← surviving_eq_accepting hok]
  exact h

/-- Three malformed datagrams make the buffer drop the packet 3, which it would
have delivered. -/
theorem rejected_changes_stream :
    ((run jbufStep (rtpjbufCtor 3)
      [.udpIn 0 (datagram 1), .udpIn 1 (datagram 3), .udpIn 2 [], .udpIn 3 [], .udpIn 4 [],
        .flush]).map fun p => (rtps (stream p.2)).map RtpPacket.lseq) = some [1] ∧
    ((run jbufStep (rtpjbufCtor 3)
      (accepting [.udpIn 0 (datagram 1), .udpIn 1 (datagram 3), .udpIn 2 [], .udpIn 3 [],
        .udpIn 4 [], .flush])).map fun p => (rtps (stream p.2)).map RtpPacket.lseq) =
      some [3] := by
  decide

/-! ### Late and repeated packets -/

/-- The packet that the next call makes of the datagram kept at `data` when it
parses to `info`. -/
def incoming (s : RtpjbufInst) (data : ℕ) (info : RtpInfo) : RtpPacket :=
  ⟨info, (assign (purgeStaleTail s).2 info.seq).2, 0, data⟩

/-- The call counts one late or one repeated packet. -/
def CountedOnce (s s' : RtpjbufInst) : Prop :=
  (s'.dropLate = add64 s.dropLate 1 ∧ s'.dropDup = s.dropDup) ∨
    (s'.dropLate = s.dropLate ∧ s'.dropDup = add64 s.dropDup 1)

/-- The next call drops the datagram if it is late, and then holds nothing that
is late; and it drops the datagram if its number is already held. -/
structure Screened (s : RtpjbufInst) (data : ℕ) (buf : List UInt8) (info : RtpInfo) : Prop where
  late : (incoming s data info).lseq ≤ s.lastLseq →
    ∃ s' r, jbufStep s (.udpIn data buf) = some (s', r) ∧ incoming s data info ∈ r.drop ∧
      CountedOnce s s' ∧ s'.lastLseq = s.lastLseq ∧ ∀ n ∈ lseqs s', s.lastLseq < n
  repeated : (incoming s data info).lseq ∈ lseqs s →
    ∃ s' r, jbufStep s (.udpIn data buf) = some (s', r) ∧ incoming s data info ∈ r.drop

/-- The purge does not get in the way of the checks: when it has unset
`last_max_lseq` the datagram's number is new, and the frame it takes out, if
any, has another number. -/
def Caught (s : RtpjbufInst) (data : ℕ) (info : RtpInfo) : Prop :=
  ((purgeStaleTail s).2.lastMaxLseq = lmsDefault → s.lastLseq < s.lseqMask ||| info.seq.toNat) ∧
    ∀ p ∈ (purgeStaleTail s).1, p.lseq ≠ (incoming s data info).lseq

theorem purged_jbcnt_ne_zero (h : 1 ≤ s.capacity) : ∀ p ∈ (purgeStaleTail s).1, p.jbcnt ≠ 0 := by
  intro p hp
  rcases purgeStaleTail_cases s with ⟨heq, -⟩ | ⟨prev, tail, -, -, ⟨-, heq⟩ | ⟨hage, heq⟩⟩
  · rw [heq] at hp
    cases hp
  · rw [heq] at hp
    cases hp
  · rw [heq] at hp
    obtain rfl : tail.aged = p := Option.some.inj hp
    omega

/-- The new packet is not the one that was purged. -/
theorem incoming_not_purged (h : 1 ≤ s.capacity) (data : ℕ) (info : RtpInfo) :
    incoming s data info ∉ (purgeStaleTail s).1.toList := by
  intro hmem
  exact purged_jbcnt_ne_zero h _ (Option.mem_toList.mp hmem) rfl

/-- A late packet is dropped and counted, where the largest number is known. -/
theorem Placed.of_late (hp : Placed s fp drop s' r) (hmax : s.lastMaxLseq ≠ lmsDefault)
    (hwarm : s.lastLseq ≠ lrsDefault) (hle : fp.lseq ≤ s.lastLseq) :
    (s' = { s with dropLate := add64 s.dropLate 1 } ∨
      s' = { s with dropDup := add64 s.dropDup 1 }) ∧ r = ⟨0, [], fp :: drop⟩ := by
  have notFresh : ¬ (s.lastLseq = lrsDefault ∨ s.lastLseq < fp.lseq) := by
    rintro (h | h)
    · exact hwarm h
    · omega
  cases hp with
  | late => exact ⟨.inl rfl, rfl⟩
  | lateDup => exact ⟨.inr rfl, rfl⟩
  | dup q _ hfresh => exact absurd hfresh notFresh
  | deliver _ _ hnext => exact absurd (hnext.symm.imp And.left fun h => h.2.2) notFresh
  | hold _ hmax' => exact absurd ((hmax'.resolve_left hmax).2) notFresh
  | insert pre post hins => exact absurd hins.fresh notFresh
  | release pre post f₀ run ifp next hins => exact absurd hins.fresh notFresh

/-- A packet is dropped only as late or as a duplicate, and only where the
largest number is known. -/
theorem Placed.of_dropped (hp : Placed s fp drop s' r) (hdrop : fp ∈ r.drop) (hnot : fp ∉ drop) :
    s.lastMaxLseq ≠ lmsDefault ∧ ((s.lastLseq ≠ lrsDefault ∧ fp.lseq ≤ s.lastLseq) ∨
      fp.lseq ∈ lseqs s) := by
  cases hp with
  | late hmax hwarm hle => exact ⟨hmax, .inl ⟨hwarm, hle⟩⟩
  | lateDup hmax hwarm hle => exact ⟨hmax, .inl ⟨hwarm, hle⟩⟩
  | dup q hmax hfresh hq heq => exact ⟨hmax, .inr (heq ▸ List.mem_map_of_mem hq)⟩
  | deliver | hold | insert | release => exact absurd hdrop hnot

theorem assign_of_unset (h : (purgeStaleTail s).2.lastMaxLseq = lmsDefault) (data : ℕ)
    (info : RtpInfo) : (incoming s data info).lseq = s.lseqMask ||| info.seq.toNat := by
  show (assign (purgeStaleTail s).2 info.seq).2 = _
  rw [assign, if_pos h, purgeStaleTail_lseqMask]

/-- A parsed datagram is placed after the purge and the conversion. -/
theorem jbufStep_placed {data : ℕ} {buf : List UInt8} {info : RtpInfo}
    (hparse : parsed buf = some info) (hs : jbufStep s (.udpIn data buf) = some (s', r)) :
    Placed (assign (purgeStaleTail s).2 info.seq).1 (incoming s data info)
      (purgeStaleTail s).1.toList s' r := by
  cases jbufStep_cases hs with
  | rejected e hparse' =>
    rw [hparse'] at hparse
    cases hparse
  | placed info' hparse' hp =>
    rw [hparse', Option.some.injEq] at hparse
    subst hparse
    exact hp

theorem Screened.of_caught {data : ℕ} {buf : List UInt8} {info : RtpInfo} (h : JInv s)
    (hgap : HeadGap s) (hlast : s.lastLseq ≠ lrsDefault) (hparse : parsed buf = some info)
    (hc : Caught s data info) : Screened s data buf info := by
  obtain ⟨s', r, hs⟩ := jbufStep_progress h hgap (.udpIn data buf)
  have hp := jbufStep_placed hparse hs
  have hinv := h.purge.assign info.seq
  have hgap' := (hgap.purge h).assign info.seq
  have hlast' : (assign (purgeStaleTail s).2 info.seq).1.lastLseq = s.lastLseq := by
    rw [assign_lastLseq, purgeStaleTail_lastLseq]
  constructor
  · intro hle
    refine ⟨s', r, hs, ?_⟩
    have hmax : (assign (purgeStaleTail s).2 info.seq).1.lastMaxLseq ≠ lmsDefault := by
      rw [assign_lastMaxLseq]
      intro hmax
      have := hc.1 hmax
      rw [assign_of_unset hmax] at hle
      omega
    obtain ⟨hs', rfl⟩ := hp.of_late hmax (by rw [hlast']; exact hlast) (by rw [hlast']; exact hle)
    have hcount : (assign (purgeStaleTail s).2 info.seq).1.dropLate = s.dropLate ∧
        (assign (purgeStaleTail s).2 info.seq).1.dropDup = s.dropDup := by
      rw [assign_eq, purgeStaleTail_eq]
      exact ⟨rfl, rfl⟩
    -- what is held is what the purge has left
    have hheld : ∀ n ∈ lseqs (assign (purgeStaleTail s).2 info.seq).1, s.lastLseq < n := by
      intro n hn
      have := hinv.last_add_two_le hgap' (by rw [hlast']; exact hlast) n hn
      omega
    refine ⟨List.mem_cons_self, ?_, ?_, ?_⟩
    · rcases hs' with rfl | rfl
      · exact .inl ⟨congrArg (add64 · 1) hcount.1, hcount.2⟩
      · exact .inr ⟨hcount.1, congrArg (add64 · 1) hcount.2⟩
    · rcases hs' with rfl | rfl <;> exact hlast'
    · rcases hs' with rfl | rfl <;> exact hheld
  · intro hmem
    refine ⟨s', r, hs, ?_⟩
    -- the frame with the number is still held after the purge
    have hmem' : (incoming s data info).lseq ∈ lseqs (purgeStaleTail s).2 := by
      rcases purgeStaleTail_lseqs h with ⟨hls, -, -⟩ | ⟨p, ls, hpurged, hls, hls', -, -⟩
      · rwa [hls]
      · rw [hls, List.mem_append, List.mem_singleton] at hmem
        rw [hls']
        exact hmem.resolve_right fun heq => hc.2 p hpurged heq.symm
    obtain ⟨q, hq, heq⟩ := List.mem_map.mp hmem'
    obtain ⟨-, rfl⟩ := hp.of_held hinv hgap' (by rw [assign_head]; exact hq) heq
    exact List.mem_cons_self

theorem Caught.of_screened {data : ℕ} {buf : List UInt8} {info : RtpInfo} (h : JInv s)
    (hgap : HeadGap s) (hcap : 1 ≤ s.capacity) (hlast : s.lastLseq ≠ lrsDefault)
    (hparse : parsed buf = some info) (hsc : Screened s data buf info) : Caught s data info := by
  have hnot := incoming_not_purged hcap data info
  constructor
  · intro hmax
    rw [← assign_of_unset hmax data]
    by_contra hle
    obtain ⟨s', r, hs, hdrop, -⟩ := hsc.late (not_lt.mp hle)
    refine ((jbufStep_placed hparse hs).of_dropped hdrop hnot).1 ?_
    rw [assign_lastMaxLseq]
    exact hmax
  · intro p hpurged heq
    rcases purgeStaleTail_lseqs h with ⟨-, -, hnone⟩ | ⟨p', ls, hpurged', hls, hls', -, -⟩
    · rw [hnone] at hpurged
      cases hpurged
    obtain rfl : p' = p := by
      rw [hpurged'] at hpurged
      exact Option.some.inj hpurged
    have hmem : p'.lseq ∈ lseqs s := by rw [hls]; simp
    obtain ⟨s', r, hs, hdrop⟩ := hsc.repeated (heq ▸ hmem)
    obtain ⟨-, hor⟩ := (jbufStep_placed hparse hs).of_dropped hdrop hnot
    rw [assign_lastLseq, purgeStaleTail_lastLseq, lseqs_assign, hls', ← heq] at hor
    rcases hor with ⟨-, hle⟩ | hmem'
    · have := h.last_add_two_le hgap hlast _ hmem
      omega
    · -- the purged frame was the largest
      have hasc := h.asc
      rw [hls] at hasc
      have := (List.pairwise_append.mp hasc).2.2 _ hmem' _ (List.mem_singleton_self _)
      omega

/-- **Late and repeated packets are dropped**, in every run whose calls are all
safe, exactly where the purge does not get in the way. -/
theorem jbufRun_screens {capacity : ℕ} (hpos : 1 ≤ capacity) (hcap : capacity < 2 ^ 32)
    {calls : List JBufCall}
    (hsafe : Always jbufStep (fun s call => call.safe s) (rtpjbufCtor capacity) calls) :
    ∃ s outs, run jbufStep (rtpjbufCtor capacity) calls = some (s, outs) ∧
      (s.lastLseq ≠ lrsDefault → ∀ data buf info, parsed buf = some info →
        (Screened s data buf info ↔ Caught s data info)) := by
  have hinit : JInv (rtpjbufCtor capacity) ∧ HeadGap (rtpjbufCtor capacity) ∧
      (rtpjbufCtor capacity).capacity = capacity :=
    ⟨jInv_ctor hcap, fun hc => absurd rfl hc, rfl⟩
  obtain ⟨s, outs, hrun, hinv, hgap, hcapacity⟩ := run_total (fun _ => True)
    (fun _ _ s => JInv s ∧ HeadGap s ∧ s.capacity = capacity) (fun _ => trivial) hinit
    (fun _ hinv hok => by
      obtain ⟨s', r, hs, h1, h2⟩ := jbufStep_total hinv.1 hinv.2.1 (hinv.1.notSentinel hok) hok.fresh
      exact ⟨s', r, hs, h1, h2, (jbufStep_capacity hs).trans hinv.2.2⟩) trivial hsafe
  refine ⟨s, outs, hrun, fun hlast data buf info hparse => ⟨?_, ?_⟩⟩
  · exact Caught.of_screened hinv hgap (by omega) hlast hparse
  · exact Screened.of_caught hinv hgap hlast hparse

theorem jbufRun_screens_late :
    ∃ s outs s' r, run jbufStep (rtpjbufCtor 2)
        [.udpIn 0 (datagram 100), .flush, .udpIn 1 (datagram 200)] = some (s, outs) ∧
      jbufStep s (.udpIn 2 (datagram 60)) = some (s', r) ∧ CountedOnce s s' := by
  obtain ⟨s, outs, hrun, hsc⟩ := jbufRun_screens (by decide : 1 ≤ 2) (by decide)
    (by decide : Always jbufStep (fun s call => call.safe s) (rtpjbufCtor 2)
      [.udpIn 0 (datagram 100), .flush, .udpIn 1 (datagram 200)])
  have hget : s = ((run jbufStep (rtpjbufCtor 2)
    [.udpIn 0 (datagram 100), .flush, .udpIn 1 (datagram 200)]).get (by decide)).1 := by simp [hrun]
  subst hget
  obtain ⟨s', r, hs, -, hcount, -⟩ := ((hsc (by decide) 2 (datagram 60)
    ((parsed (datagram 60)).get (by decide)) (by decide)).mpr ⟨by decide, by decide⟩).late (by decide)
  exact ⟨_, outs, s', r, hrun, hs, hcount⟩

/-- A datagram that is late or repeated and yet not dropped. -/
theorem not_screened {data : ℕ} {buf : List UInt8} {info : RtpInfo}
    (hin : (incoming s data info).lseq ≤ s.lastLseq ∨ (incoming s data info).lseq ∈ lseqs s)
    (hkept : (jbufStep s (.udpIn data buf)).all (fun p => incoming s data info ∉ p.2.drop) = true) :
    ¬ Screened s data buf info := by
  intro hsc
  obtain ⟨s', r, hs, hdrop⟩ : ∃ s' r, jbufStep s (.udpIn data buf) = some (s', r) ∧
      incoming s data info ∈ r.drop := by
    rcases hin with hle | hmem
    · obtain ⟨s', r, hs, hdrop, -⟩ := hsc.late hle
      exact ⟨s', r, hs, hdrop⟩
    · exact hsc.repeated hmem
  rw [hs, Option.all_some, decide_eq_true_eq] at hkept
  exact hkept hdrop

/-- Capacity 2: the purge of 200 forgets the largest number, and the late packet
50 is held.  Capacity 3: the purge of 9 makes room for another packet 9. -/
theorem late_packet_held :
    (∃ s outs info, run jbufStep (rtpjbufCtor 2)
        [.udpIn 0 (datagram 100), .flush, .udpIn 1 (datagram 200), .udpIn 2 (datagram 60)] =
          some (s, outs) ∧
      s.lastLseq ≠ lrsDefault ∧ parsed (datagram 50) = some info ∧
      ¬ Screened s 3 (datagram 50) info ∧
      (jbufStep s (.udpIn 3 (datagram 50))).map (fun p => (p.1.lastLseq, lseqs p.1)) =
        some (100, [50])) ∧
    ∃ s outs info, run jbufStep (rtpjbufCtor 3)
        [.udpIn 0 (datagram 0), .udpIn 1 (datagram 5), .udpIn 2 (datagram 9), .udpIn 3 [],
          .udpIn 4 []] = some (s, outs) ∧
      s.lastLseq ≠ lrsDefault ∧ parsed (datagram 9) = some info ∧
      ¬ Screened s 5 (datagram 9) info ∧
      (jbufStep s (.udpIn 5 (datagram 9))).map (fun p => (lseqs p.1, p.2.drop.map RtpPacket.data)) =
        some ([5, 9], [2]) := by
  constructor
  · exact ⟨((run jbufStep (rtpjbufCtor 2)
        [.udpIn 0 (datagram 100), .flush, .udpIn 1 (datagram 200), .udpIn 2 (datagram 60)]).get
          (by decide)).1, _, (parsed (datagram 50)).get (by decide),
      (Option.some_get (by decide)).symm, by decide, by decide,
      not_screened (.inl (by decide)) (by decide), by decide⟩
  · exact ⟨((run jbufStep (rtpjbufCtor 3)
        [.udpIn 0 (datagram 0), .udpIn 1 (datagram 5), .udpIn 2 (datagram 9), .udpIn 3 [],
          .udpIn 4 []]).get (by decide)).1, _, (parsed (datagram 9)).get (by decide),
      (Option.some_get (by decide)).symm, by decide, by decide,
      not_screened (.inr (by decide)) (by decide), by decide⟩

end Rtp
