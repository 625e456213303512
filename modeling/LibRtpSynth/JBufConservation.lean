/-
No packet of the jitter buffer is lost or duplicated.

`SizeInv` says that `jb.size` counts the frame list, for every capacity: a
capacity of `0` acts as `2^32`, because `size` wraps to `0` just when the
release is due.  `jbufStep_perm` says what one call does to the packets: those
it finds in the buffer, and the one it may bring, are afterwards in the buffer,
in `ready` or in `drop`, each once.  Over a run this is
`jbufRun_conserves`.

Nothing here depends on the sequence numbers, so the results hold for any
datagrams, as long as no assertion has fired.
-/
import LibRtpSynth.JBufCases

open CWords Runs
open scoped List

namespace Rtp

variable {s s' : RtpjbufInst} {r : RjbUdpInR} {fp : RtpPacket} {drop : List RtpPacket}

/-! ### `jb.size` -/

/-- The number of frames a buffer releases at; `0` stands for the number of
values of an `unsigned int`. -/
def effCapacity (capacity : ℕ) : ℕ := if capacity = 0 then 2 ^ 32 else capacity

/-- `jb.size` is the length of the list, which stays below the capacity (a
buffer of capacity 1 still holds a frame between two calls); the ages stay
below the capacity too. -/
structure SizeInv (s : RtpjbufInst) : Prop where
  capacity_lt : s.capacity < 2 ^ 32
  size : s.size = s.head.length
  bound : s.head.length < max 2 (effCapacity s.capacity)
  age : ∀ p ∈ s.head, p.jbcnt < max 1 s.capacity

theorem SizeInv.length_lt (h : SizeInv s) : s.head.length < 2 ^ 32 := by
  have hb := h.bound
  have hc := h.capacity_lt
  unfold effCapacity at hb
  split at hb <;> omega

theorem sizeInv_ctor {capacity : ℕ} (h : capacity < 2 ^ 32) : SizeInv (rtpjbufCtor capacity) where
  capacity_lt := h
  size := rfl
  bound := by simp [rtpjbufCtor]
  age := by simp [rtpjbufCtor]

/-- The stale tail; a buffer of capacity 1 is empty afterwards. -/
theorem SizeInv.purge (h : SizeInv s) :
    SizeInv (purgeStaleTail s).2 ∧ (s.capacity = 1 → (purgeStaleTail s).2.head = []) := by
  have hlen := h.length_lt
  rcases purgeStaleTail_cases s with ⟨heq, hor⟩ | ⟨prev, tail, hhead, hsize, ⟨hage, heq⟩ | ⟨hage, heq⟩⟩
  · rw [heq]
    refine ⟨h, fun hone => hor.resolve_right fun hlt => ?_⟩
    rw [hone, show sub32 1 1 = 0 from rfl] at hlt
    omega
  · have hlen' : (prev ++ [tail.aged]).length = s.head.length := by
      rw [hhead, List.length_append, List.length_append]; rfl
    have htail : tail.jbcnt < max 1 s.capacity := h.age tail (by rw [hhead]; simp)
    rw [heq]
    refine ⟨⟨h.capacity_lt, h.size.trans hlen'.symm, ?_, ?_⟩, fun hone => ?_⟩
    · show (prev ++ [tail.aged]).length < _
      rw [hlen']
      exact h.bound
    · intro p hp
      rcases List.mem_append.mp hp with hp | hp
      · exact h.age p (by rw [hhead]; exact List.mem_append_left _ hp)
      · rw [List.mem_singleton.mp hp]
        exact lt_max_of_lt_right hage
    · -- at capacity 1 a frame is purged at the first look
      rw [hone] at hage htail
      have hzero : tail.jbcnt = 0 := by omega
      have hone' : tail.aged.jbcnt = 1 := by
        show add64 tail.jbcnt 1 = 1
        rw [hzero]; rfl
      omega
  · have hlen' : s.head.length = prev.length + 1 := by rw [hhead, List.length_append]; rfl
    have hb := h.bound
    rw [heq]
    refine ⟨⟨h.capacity_lt, ?_, ?_, ?_⟩, fun hone => ?_⟩
    · show sub32 s.size 1 = prev.length
      rw [h.size, sub32_of_le hlen (by omega)]
      omega
    · show prev.length < max 2 (effCapacity s.capacity)
      omega
    · intro p hp
      exact h.age p (by rw [hhead]; exact List.mem_append_left _ hp)
    · show prev = []
      rw [hone] at hb
      refine List.length_eq_zero_iff.mp ?_
      unfold effCapacity at hb
      simp at hb
      omega

theorem SizeInv.assign (h : SizeInv s) (seq : UInt16) : SizeInv (assign s seq).1 := by
  rw [assign_eq]
  exact ⟨h.capacity_lt, h.size, h.bound, h.age⟩

/-- At capacity 1 a datagram always finds an empty buffer. -/
theorem SizeInv.assign_head_nil (h : SizeInv s) (seq : UInt16) :
    (Rtp.assign (purgeStaleTail s).2 seq).1.capacity = 1 →
      (Rtp.assign (purgeStaleTail s).2 seq).1.head = [] := by
  rw [assign_capacity, purgeStaleTail_capacity, assign_head]
  exact h.purge.2

/-- Room for one more frame, when its insertion causes no release. -/
theorem insert_bound {len capacity : ℕ} (hc : capacity < 2 ^ 32) (hone : capacity ≠ 1)
    (hb : len < max 2 (effCapacity capacity)) (hpos : len ≠ 0) (hsize : add32 len 1 ≠ capacity) :
    add32 len 1 = len + 1 ∧ len + 1 < max 2 (effCapacity capacity) := by
  unfold effCapacity at hb ⊢
  unfold add32 at hsize ⊢
  -- a capacity of 0 acts as `2 ^ 32`: the size wraps to it just when the release is due
  by_cases h0 : capacity = 0
  · rw [if_pos h0] at hb ⊢
    omega
  · rw [if_neg h0] at hb ⊢
    omega

/-- The ages after an insertion: the new frame has age `0`. -/
theorem age_insert {pre post : List RtpPacket} (h : SizeInv s) (hhead : s.head = pre ++ post)
    (hfp : fp.jbcnt = 0) : ∀ p ∈ pre ++ fp :: post, p.jbcnt < max 1 s.capacity := by
  intro p hp
  have hage := h.age
  rw [hhead] at hage
  rcases List.mem_append.mp hp with hp | hp
  · exact hage p (List.mem_append_left _ hp)
  · rcases List.mem_cons.mp hp with rfl | hp
    · rw [hfp]; omega
    · exact hage p (List.mem_append_right _ hp)

theorem SizeInv.placed (h : SizeInv s) (hone : s.capacity = 1 → s.head = []) (hfp : fp.jbcnt = 0)
    (hp : Placed s fp drop s' r) : SizeInv s' := by
  cases hp with
  | late => exact ⟨h.capacity_lt, h.size, h.bound, h.age⟩
  | lateDup => exact ⟨h.capacity_lt, h.size, h.bound, h.age⟩
  | dup => exact ⟨h.capacity_lt, h.size, h.bound, h.age⟩
  | deliver => exact ⟨h.capacity_lt, h.size, h.bound, h.age⟩
  | hold =>
    refine ⟨h.capacity_lt, rfl, ?_, ?_⟩
    · show 1 < max 2 _
      omega
    · intro p hp
      rw [List.mem_singleton.mp hp, hfp]
      exact lt_max_of_lt_left Nat.one_pos
  | insert pre post hins hsize hgap =>
    have hlen : (pre ++ fp :: post).length = s.head.length + 1 := by
      rw [hins.head, List.length_append, List.length_append]; rfl
    rw [h.size] at hsize
    obtain ⟨h1, h2⟩ := insert_bound h.capacity_lt (fun h1 => hins.head_ne (hone h1)) h.bound
      (fun h0 => hins.head_ne (List.length_eq_zero_iff.mp h0)) hsize
    refine ⟨h.capacity_lt, ?_, ?_, ?_⟩
    · show add32 s.size 1 = (pre ++ fp :: post).length
      rw [h.size, h1, hlen]
    · show (pre ++ fp :: post).length < max 2 (effCapacity s.capacity)
      rw [hlen]
      exact h2
    · show ∀ p ∈ pre ++ fp :: post, p.jbcnt < max 1 s.capacity
      exact age_insert h hins.head hfp
  | release pre post f₀ run ifp next hins hrel =>
    -- what is left behind the run is shorter than what was there before the insertion
    have hlen : s.head.length = pre.length + post.length := by rw [hins.head, List.length_append]
    have hlen' := congrArg List.length hrel.head
    simp only [insertedInst, List.length_append, List.length_cons] at hlen'
    have hb := h.bound
    have hlt := h.length_lt
    refine ⟨h.capacity_lt, ?_, ?_, ?_⟩
    · show sub32 (add32 s.size 1) (run.length + 1) = next.length
      rw [h.size]
      unfold sub32 add32
      omega
    · show next.length < max 2 (effCapacity s.capacity)
      omega
    · intro p hp
      refine age_insert h hins.head hfp p ?_
      have hhead : pre ++ fp :: post = run ++ ifp :: next := hrel.head
      rw [hhead]
      exact List.mem_append_right _ (List.mem_cons_of_mem _ hp)

theorem SizeInv.flushed (h : SizeInv s) (ifp : RtpPacket) : SizeInv (flushedInst s ifp) where
  capacity_lt := h.capacity_lt
  size := rfl
  bound := by
    show 0 < max 2 _
    omega
  age := by simp [flushedInst]

/-- One call keeps `jb.size` right. -/
theorem SizeInv.step (h : SizeInv s) {call : JBufCall} (hs : jbufStep s call = some (s', r)) :
    SizeInv s' := by
  have hpurge := h.purge.1
  cases jbufStep_cases hs with
  | rejected => exact ⟨hpurge.capacity_lt, hpurge.size, hpurge.bound, hpurge.age⟩
  | placed info hparse hp =>
    exact (hpurge.assign info.seq).placed (h.assign_head_nil info.seq) rfl hp
  | idle => exact h
  | flushed front seg ifp => exact h.flushed ifp

/-! ### Packets -/

/-- A packet without its age, which is all that changes while it is held. -/
def RtpPacket.core (p : RtpPacket) : RtpPacket := { p with jbcnt := 0 }

/-- The packets among the frames of a ready list. -/
def rtps (frames : List RtpFrame) : List RtpPacket :=
  frames.filterMap fun
    | .rtp p => some p
    | .ers _ => none

@[simp] theorem rtps_append (a b : List RtpFrame) : rtps (a ++ b) = rtps a ++ rtps b :=
  List.filterMap_append

@[simp] theorem rtps_map_rtp (l : List RtpPacket) : rtps (l.map .rtp) = l := by
  induction l with
  | nil => rfl
  | cons p l ih =>
    show p :: rtps (l.map .rtp) = p :: l
    rw [ih]

@[simp] theorem rtps_ersBefore (s : RtpjbufInst) (fp : RtpPacket) : rtps (ersBefore s fp) = [] := by
  rcases ersBefore_cases s fp with ⟨-, h⟩ | ⟨-, e, h, -⟩ <;> rw [h] <;> rfl

/-- The packets a result hands out. -/
def RjbUdpInR.packets (r : RjbUdpInR) : List RtpPacket := rtps r.ready ++ r.drop

theorem purgeStaleTail_perm (s : RtpjbufInst) :
    ((purgeStaleTail s).2.head ++ (purgeStaleTail s).1.toList).map RtpPacket.core ~
      s.head.map RtpPacket.core := by
  rcases purgeStaleTail_cases s with ⟨heq, -⟩ | ⟨prev, tail, hhead, _, ⟨_, heq⟩ | ⟨_, heq⟩⟩
  · rw [heq]; simp
  · rw [heq, hhead]; simp [RtpPacket.core, RtpPacket.aged]
  · rw [heq, hhead]; simp [RtpPacket.core, RtpPacket.aged, purgedInst]

theorem Placed.perm (hp : Placed s fp drop s' r) :
    s'.head ++ r.packets ~ s.head ++ fp :: drop := by
  cases hp with
  | late => exact List.Perm.refl _
  | lateDup => exact List.Perm.refl _
  | dup => exact List.Perm.refl _
  | deliver => exact List.Perm.refl _
  | hold hhead =>
    rw [hhead]
    exact List.Perm.refl _
  | insert pre post hins =>
    rw [hins.head]
    show pre ++ fp :: post ++ drop ~ pre ++ post ++ fp :: drop
    simp only [List.append_assoc, List.cons_append]
    exact (List.perm_append_left_iff pre).mpr List.perm_middle.symm
  | release pre post f₀ run ifp next hins hrel =>
    have hhead : pre ++ fp :: post = run ++ ifp :: next := hrel.head
    have hready : rtps (releasedReady (insertedInst s fp pre post) f₀ run ifp) = run ++ [ifp] := by
      rw [releasedReady, rtps_append, rtps_map_rtp]
      split
      · rfl
      · rw [rtps_ersBefore]; rfl
    show next ++ (rtps (releasedReady (insertedInst s fp pre post) f₀ run ifp) ++ drop) ~ _
    rw [hready, hins.head]
    calc next ++ (run ++ [ifp] ++ drop)
        ~ (run ++ [ifp] ++ drop) ++ next := List.perm_append_comm
      _ ~ run ++ ifp :: next ++ drop := by
        simp only [List.append_assoc, List.cons_append, List.nil_append]
        exact (List.perm_append_left_iff _).mpr
          ((List.perm_cons _).mpr List.perm_append_comm)
      _ ~ pre ++ post ++ fp :: drop := by
        rw [← hhead]
        simp only [List.append_assoc, List.cons_append]
        exact (List.perm_append_left_iff pre).mpr List.perm_middle.symm

theorem Flushed.perm {front seg : List RtpPacket} {ifp f₀ : RtpPacket}
    (h : Flushed s front seg ifp f₀ drop) :
    rtps (ersBefore s f₀ ++ (seg ++ [ifp]).map .rtp) ++ drop ~ s.head := by
  rw [rtps_append, rtps_ersBefore, List.nil_append, rtps_map_rtp, h.head]
  exact (List.Perm.append_left _ h.drop_perm).trans List.perm_append_comm

/-- The packet a call brings into the buffer. -/
def newPacket (s : RtpjbufInst) : JBufCall → List RtpPacket
  | .udpIn data buf =>
    (parsed buf).toList.map fun info =>
      ⟨info, (assign (purgeStaleTail s).2 info.seq).2, 0, data⟩
  | .flush => []

/-- **One call conserves packets**: what was held and what came in is held or
handed out afterwards. -/
theorem jbufStep_perm {call : JBufCall} (hs : jbufStep s call = some (s', r)) :
    (s'.head ++ r.packets).map RtpPacket.core ~
      s.head.map RtpPacket.core ++ newPacket s call := by
  have hpurge := purgeStaleTail_perm s
  cases jbufStep_cases hs with
  | rejected e hparse =>
    rw [newPacket, hparse]
    simpa [RjbUdpInR.packets, rtps] using hpurge
  | placed info hparse hp =>
    rw [newPacket, hparse]
    -- the purged frame is the drop list that the new packet is put in front of
    refine (hp.perm.map _).trans ?_
    rw [assign_head, List.map_append, List.map_cons]
    rw [List.map_append] at hpurge
    exact (List.perm_middle.trans (hpurge.cons _)).trans (List.perm_append_singleton _ _).symm
  | idle hhead =>
    rw [hhead]
    exact List.Perm.refl _
  | flushed front seg ifp f₀ drop hfl =>
    rw [newPacket, List.append_nil]
    exact hfl.perm.map _

/-! ### Runs -/

/-- The datagram of a call with what the parser makes of it, when it accepts
it. -/
def JBufCall.accepted : JBufCall → Option (ℕ × RtpInfo)
  | .udpIn data buf => (parsed buf).map fun info => (data, info)
  | .flush => none

/-- The datagram of the call does not parse. -/
def JBufCall.rejected : JBufCall → Bool
  | .udpIn _ buf => (parsed buf).isNone
  | .flush => false

/-- The call presents a datagram. -/
def JBufCall.presents : JBufCall → Bool
  | .udpIn _ _ => true
  | .flush => false

/-- The counter `PyRtpJBuf.dropped` after `process_drop_list`. -/
def processDropList (dropped : ℕ) (fp : List RtpPacket) : ℕ :=
  fp.foldl (fun n _ => add64 n 1) dropped

theorem processDropList_eq (dropped : ℕ) (fp : List RtpPacket) (h : dropped < 2 ^ 64) :
    processDropList dropped fp = (dropped + fp.length) % 2 ^ 64 := by
  induction fp generalizing dropped with
  | nil => exact (Nat.mod_eq_of_lt h).symm
  | cons p fp ih =>
    show processDropList (add64 dropped 1) fp = _
    rw [ih _ (add64_lt _ _), List.length_cons]
    unfold add64
    omega

/-- A call and the parse error counter. -/
theorem jbufStep_dropPerror {call : JBufCall} (hs : jbufStep s call = some (s', r)) :
    s'.dropPerror = if call.rejected then add64 s.dropPerror 1 else s.dropPerror := by
  have hpurge : (purgeStaleTail s).2.dropPerror = s.dropPerror := by rw [purgeStaleTail_eq]
  cases jbufStep_cases hs with
  | rejected e hparse =>
    rw [JBufCall.rejected, hparse]
    show add64 (purgeStaleTail s).2.dropPerror 1 = _
    rw [hpurge]
    rfl
  | placed info hparse hp =>
    rw [JBufCall.rejected, hparse, ← hpurge]
    have hassign : (assign (purgeStaleTail s).2 info.seq).1.dropPerror =
        (purgeStaleTail s).2.dropPerror := by rw [assign_eq]
    cases hp <;> exact hassign
  | idle | flushed => rfl

/-- The datagram a packet stands for: where the caller keeps it, and what the
parser made of it. -/
def RtpPacket.datagram (p : RtpPacket) : ℕ × RtpInfo := (p.data, p.info)

/-- The packets in the ready lists of a run. -/
def delivered (outs : List RjbUdpInR) : List RtpPacket := outs.flatMap fun r => rtps r.ready

/-- The packets in the drop lists of a run. -/
def dropped (outs : List RjbUdpInR) : List RtpPacket := outs.flatMap RjbUdpInR.drop

theorem delivered_concat (outs : List RjbUdpInR) (r : RjbUdpInR) :
    delivered (outs ++ [r]) = delivered outs ++ rtps r.ready := by
  rw [delivered, List.flatMap_append, List.flatMap_singleton, ← delivered]

theorem dropped_concat (outs : List RjbUdpInR) (r : RjbUdpInR) :
    dropped (outs ++ [r]) = dropped outs ++ r.drop := by
  rw [dropped, List.flatMap_append, List.flatMap_singleton, ← dropped]

/-- Where a packet can be after a run: in the buffer, in a ready list, in a
drop list. -/
def places (s : RtpjbufInst) (outs : List RjbUdpInR) : List RtpPacket :=
  s.head ++ (delivered outs ++ dropped outs)

/-- The counter `PyRtpJBuf.dropped` once every drop list went through
`process_drop_list`. -/
def pyDropped (outs : List RjbUdpInR) : ℕ :=
  outs.foldl (fun n r => processDropList n r.drop) 0

theorem places_concat (s' : RtpjbufInst) (outs : List RjbUdpInR) (r : RjbUdpInR) :
    places s' (outs ++ [r]) ~ (s'.head ++ r.packets) ++ (delivered outs ++ dropped outs) := by
  have h : places s' (outs ++ [r]) =
      s'.head ++ ((delivered outs ++ rtps r.ready) ++ (dropped outs ++ r.drop)) := by
    simp [places, delivered, dropped]
  rw [h, RjbUdpInR.packets, List.append_assoc s'.head]
  refine (List.perm_append_left_iff s'.head).mpr ?_
  calc delivered outs ++ rtps r.ready ++ (dropped outs ++ r.drop)
      ~ rtps r.ready ++ delivered outs ++ (r.drop ++ dropped outs) :=
        List.perm_append_comm.append List.perm_append_comm
    _ = rtps r.ready ++ (delivered outs ++ (r.drop ++ dropped outs)) := by simp
    _ ~ rtps r.ready ++ (r.drop ++ (delivered outs ++ dropped outs)) :=
        (List.perm_append_left_iff _).mpr (List.perm_append_comm_assoc _ _ _)
    _ = rtps r.ready ++ r.drop ++ (delivered outs ++ dropped outs) := by simp

theorem newPacket_datagram (s : RtpjbufInst) (call : JBufCall) :
    (newPacket s call).map RtpPacket.datagram = call.accepted.toList := by
  cases call with
  | udpIn data buf =>
    rw [newPacket, JBufCall.accepted]
    cases parsed buf <;> rfl
  | flush => rfl

/-- The step for the packets' places, for anything but the age. -/
theorem places_step {α : Type} (key : RtpPacket → α) (hkey : ∀ p, key p.core = key p)
    (outs : List RjbUdpInR) {call : JBufCall} (hs : jbufStep s call = some (s', r)) :
    (places s' (outs ++ [r])).map key ~ (places s outs).map key ++ (newPacket s call).map key := by
  have hcore : ∀ l : List RtpPacket, (l.map RtpPacket.core).map key = l.map key := by
    intro l
    rw [List.map_map]
    exact List.map_congr_left fun p _ => hkey p
  -- one call, without the ages
  have hstep := (jbufStep_perm hs).map key
  have hsplit : ((s.head.map RtpPacket.core) ++ newPacket s call).map key =
      s.head.map key ++ (newPacket s call).map key := by
    rw [List.map_append, hcore]
  rw [hcore, hsplit] at hstep
  calc (places s' (outs ++ [r])).map key
      ~ (s'.head ++ r.packets).map key ++ (delivered outs ++ dropped outs).map key := by
        rw [← List.map_append]
        exact (places_concat s' outs r).map _
    _ ~ s.head.map key ++ (newPacket s call).map key ++
          (delivered outs ++ dropped outs).map key := hstep.append_right _
    _ ~ (places s outs).map key ++ (newPacket s call).map key := by
        have hplaces : (places s outs).map key =
            s.head.map key ++ (delivered outs ++ dropped outs).map key := by
          rw [places, List.map_append]
        rw [hplaces, List.append_assoc, List.append_assoc]
        exact (List.perm_append_left_iff _).mpr List.perm_append_comm

theorem filterMap_singleton {α β : Type} (f : α → Option β) (a : α) :
    [a].filterMap f = (f a).toList := by
  cases h : f a <;> simp [h]

/-- What holds after every run: each accepted datagram has one place, the size
and the error counter are right. -/
structure Ledger (calls : List JBufCall) (outs : List RjbUdpInR) (s : RtpjbufInst) : Prop where
  size : SizeInv s
  places : (places s outs).map RtpPacket.datagram ~ calls.filterMap JBufCall.accepted
  dropPerror : s.dropPerror = calls.countP JBufCall.rejected % 2 ^ 64

theorem ledger_of_run {capacity : ℕ} (hcap : capacity < 2 ^ 32) {calls : List JBufCall}
    {outs : List RjbUdpInR} (h : run jbufStep (rtpjbufCtor capacity) calls = some (s, outs)) :
    Ledger calls outs s := by
  refine run_induction (P := fun _ _ => True) Ledger ⟨sizeInv_ctor hcap, List.Perm.refl _, rfl⟩ ?_
    (Always.of_forall fun _ _ _ => trivial) h
  intro calls outs s call s' r hl _ hs
  refine ⟨hl.size.step hs, ?_, ?_⟩
  · have hstep := places_step RtpPacket.datagram (fun _ => rfl) outs hs
    rw [newPacket_datagram] at hstep
    rw [List.filterMap_append, filterMap_singleton]
    exact hstep.trans (hl.places.append_right _)
  · rw [jbufStep_dropPerror hs, hl.dropPerror, List.countP_append]
    by_cases hc : call.rejected
    · simp [hc, add64]
    · simp [hc]

theorem pyDropped_eq (outs : List RjbUdpInR) :
    pyDropped outs = (dropped outs).length % 2 ^ 64 := by
  induction outs using List.reverseRecOn with
  | nil => rfl
  | append_singleton outs r ih =>
    -- the counter goes through the drop lists in order
    have hstep : pyDropped (outs ++ [r]) = processDropList (pyDropped outs) r.drop := by
      rw [pyDropped, pyDropped, List.foldl_append]; rfl
    have hlen : (dropped (outs ++ [r])).length = (dropped outs).length + r.drop.length := by
      simp [dropped]
    rw [hstep, hlen, ih, processDropList_eq _ _ (Nat.mod_lt _ (by decide)), Nat.mod_add_mod]

/-- A call presents a datagram that parses, or one that does not, or none. -/
theorem countP_presents (calls : List JBufCall) :
    calls.countP JBufCall.presents =
      (calls.filterMap JBufCall.accepted).length + calls.countP JBufCall.rejected := by
  induction calls with
  | nil => rfl
  | cons call calls ih =>
    cases call with
    | udpIn data buf =>
      cases hp : parsed buf with
      | none =>
        simp [JBufCall.presents, JBufCall.accepted, JBufCall.rejected, List.countP_cons, hp, ih]
        omega
      | some info =>
        simp [JBufCall.presents, JBufCall.accepted, JBufCall.rejected, List.countP_cons, hp, ih]
        omega
    | flush =>
      simpa [JBufCall.presents, JBufCall.accepted, JBufCall.rejected, List.countP_cons,
        List.filterMap_cons] using ih

theorem head_of_flush (hs : jbufStep s .flush = some (s', r)) : s'.head = [] := by
  cases jbufStep_cases hs with
  | idle hhead => exact hhead
  | flushed => rfl

/-- The place where the caller keeps the datagram of a call. -/
def JBufCall.handle : JBufCall → Option ℕ
  | .udpIn data _ => some data
  | .flush => none

/-- The places of the accepted datagrams are among those of all datagrams. -/
theorem handles_accepted (calls : List JBufCall) :
    ((calls.filterMap JBufCall.accepted).map Prod.fst).Sublist
      (calls.filterMap JBufCall.handle) := by
  induction calls with
  | nil => exact List.Sublist.refl _
  | cons call calls ih =>
    cases call with
    | udpIn data buf =>
      cases hp : parsed buf with
      | none => simpa [JBufCall.accepted, JBufCall.handle, hp] using ih.cons data
      | some info => simpa [JBufCall.accepted, JBufCall.handle, hp] using ih.cons_cons data
    | flush => exact ih

/-- With every datagram kept at a place of its own, the place tells whether it
was accepted. -/
theorem mem_accepted_iff {calls : List JBufCall} (hnd : (calls.filterMap JBufCall.handle).Nodup)
    {data : ℕ} {buf : List UInt8} (hc : JBufCall.udpIn data buf ∈ calls) :
    data ∈ (calls.filterMap JBufCall.accepted).map Prod.fst ↔ (parsed buf).isSome := by
  induction calls with
  | nil => cases hc
  | cons call calls ih =>
    rcases List.mem_cons.mp hc with rfl | hc'
    · -- no later call presents a datagram from the same place
      have hnot : data ∉ (calls.filterMap JBufCall.accepted).map Prod.fst := by
        intro hmem
        have := (List.nodup_cons.mp hnd).1
        exact this ((handles_accepted calls).mem hmem)
      cases hp : parsed buf with
      | none => simpa [JBufCall.accepted, hp] using hnot
      | some info => simp [JBufCall.accepted, hp]
    · have hdata : data ∈ calls.filterMap JBufCall.handle :=
        List.mem_filterMap.mpr ⟨_, hc', rfl⟩
      cases call with
      | flush => exact ih hnd hc'
      | udpIn data' buf' =>
        have hnd' := List.nodup_cons.mp hnd
        have hne : data ≠ data' := fun heq => hnd'.1 (heq ▸ hdata)
        have hih := ih hnd'.2 hc'
        cases hp : parsed buf' with
        | none => simpa [JBufCall.accepted, hp] using hih
        | some info => simpa [JBufCall.accepted, hp, hne] using hih

/-- **Conservation of packets.**  After any run that has not aborted, the
accepted datagrams are exactly the packets in the buffer, in the ready lists
and in the drop lists, with multiplicity: when every datagram is kept at a
place of its own, an accepted one is in exactly one of the three, once, and a
rejected one in none.  `jb.size` is the length of the list, `drop.perror`
counts the rejected datagrams, and after a flush the counters add up. -/
theorem jbufRun_conserves {capacity : ℕ} (hcap : capacity < 2 ^ 32) {calls : List JBufCall}
    {outs : List RjbUdpInR} (h : run jbufStep (rtpjbufCtor capacity) calls = some (s, outs)) :
    (places s outs).map RtpPacket.datagram ~ calls.filterMap JBufCall.accepted ∧
    ((calls.filterMap JBufCall.handle).Nodup →
      ((places s outs).map RtpPacket.data).Nodup ∧
      ∀ data buf, .udpIn data buf ∈ calls →
        (data ∈ (places s outs).map RtpPacket.data ↔ (parsed buf).isSome)) ∧
    s.dropPerror = calls.countP JBufCall.rejected % 2 ^ 64 ∧
    s.size = s.head.length ∧
    (calls.getLast? = some .flush →
      s.head = [] ∧
      calls.countP JBufCall.presents =
        (delivered outs).length + (dropped outs).length + calls.countP JBufCall.rejected) ∧
    pyDropped outs = (dropped outs).length % 2 ^ 64 := by
  have hl := ledger_of_run hcap h
  have hdata : (places s outs).map RtpPacket.data ~
      (calls.filterMap JBufCall.accepted).map Prod.fst := by
    have := hl.places.map Prod.fst
    rwa [List.map_map] at this
  refine ⟨hl.places, fun hnd => ⟨?_, fun data buf hc => ?_⟩, hl.dropPerror, hl.size.size,
    fun hlast => ?_, pyDropped_eq outs⟩
  · exact hdata.nodup_iff.mpr ((handles_accepted calls).nodup hnd)
  · rw [hdata.mem_iff]
    exact mem_accepted_iff hnd hc
  · -- the last call empties the buffer, so everything is in the ready and drop lists
    obtain ⟨calls', rfl⟩ := List.getLast?_eq_some_iff.mp hlast
    obtain ⟨u, outs', r, -, hs, -⟩ := run_concat_eq_some.mp h
    have hhead := head_of_flush hs
    refine ⟨hhead, ?_⟩
    have hlen := hl.places.length_eq
    rw [List.length_map, places, hhead, List.nil_append, List.length_append] at hlen
    rw [countP_presents, ← hlen]

theorem jbufRun_conserves_flushed :
    ∃ s outs, run jbufStep (rtpjbufCtor 3)
        [.udpIn 0 (datagram 7), .udpIn 1 [], .udpIn 2 (datagram 7), .flush] = some (s, outs) ∧
      ((places s outs).map RtpPacket.data).Nodup ∧ s.head = [] ∧
      3 = (delivered outs).length + (dropped outs).length + 1 := by
  have hrun : (run jbufStep (rtpjbufCtor 3)
      [.udpIn 0 (datagram 7), .udpIn 1 [], .udpIn 2 (datagram 7), .flush]).isSome := by decide
  have hsome := (Option.some_get hrun).symm
  have h := jbufRun_conserves (by decide) hsome
  refine ⟨_, _, hsome, (h.2.1 (by decide)).1, (h.2.2.2.2.1 rfl).1, (h.2.2.2.2.1 rfl).2⟩

end Rtp
