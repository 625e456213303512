/-
Runs of the jitter buffer on the frames themselves.

The caller gets the frames of the two lists that a call hands out, and does what it wants
with them: it reads them, frees them, or writes to them.  The memory outside the list is
its own, and what it frees there `malloc` may return again.

* `LinkedEvent` — a call, or a change of the memory that the buffer does not own;
* `linkedRun_refines` — whole runs: nothing is read after it was freed or handed out, no
  frame is handed out twice, and none is lost.
-/
import LibRtpSynth.JBufLinked

open CWords Linked Runs

namespace Rtp

variable {mem : FrameMem} {xs ds rs gone : List ℕ} {fuel : ℕ} {s' : RtpjbufInst} {r : RjbUdpInR}

/-- The instance and the memory. -/
structure LinkedSys where
  mem : FrameMem
  rjbp : LinkedBuf

/-- What happens: a call to `rtpjbuf_udp_in`, in which `malloc` returns `fp`; a call to
`rtpjbuf_flush`; the memory at `a` changes for another reason.  The caller frees a frame, or
writes to it, or the memory is used for something else. -/
inductive LinkedEvent
  | udpIn (fp data : ℕ) (buf : List UInt8)
  | flush
  | outside (a : ℕ) (frame : RtpFrame) (next : Option ℕ)
  deriving DecidableEq

/-- What the caller finds in `struct rjb_udp_in_r`: the frames of the two lists, with their
addresses. -/
structure LinkedOut where
  error : ℤ
  ready : List (ℕ × RtpFrame)
  drop : List (ℕ × RtpFrame)
  deriving DecidableEq

/-- The caller goes through a list. -/
def FrameMem.read (mem : FrameMem) (fuel : ℕ) (p : Option ℕ) : List (ℕ × RtpFrame) :=
  (follow ⟨p, mem.next⟩ fuel none).map fun a => (a, mem.frame a)

/-- The result of a call. -/
def LinkedResult.shown (fuel : ℕ) (res : LinkedResult) : LinkedSys × Option LinkedOut :=
  (⟨res.mem, res.rjbp⟩,
    some ⟨res.error, res.mem.read fuel res.out.ready, res.mem.read fuel res.out.drop⟩)

/-- One event. -/
def linkedStep (fuel : ℕ) (st : LinkedSys) : LinkedEvent → Option (LinkedSys × Option LinkedOut)
  | .udpIn fp data buf =>
    (rtpjbufUdpInAt fuel st.mem st.rjbp fp data buf).map (LinkedResult.shown fuel)
  | .flush => (st.rjbp.flushAt (2 * fuel) st.mem).map (LinkedResult.shown fuel)
  | .outside a frame next =>
    some (⟨⟨Function.update st.mem.frame a frame, Function.update st.mem.next a next⟩, st.rjbp⟩, none)

/-- The frames in the list of the buffer. -/
def LinkedSys.frames (fuel : ℕ) (st : LinkedSys) : List ℕ := follow (st.rjbp.links st.mem) fuel none

/-- `malloc` returns memory that the buffer does not use, and nobody else changes the memory
that it uses. -/
def LinkedEvent.fits (fuel : ℕ) (st : LinkedSys) : LinkedEvent → Bool
  | .udpIn a _ _ | .outside a _ _ => a ∉ st.frames fuel ∧ a ≠ st.rjbp.ersFrame
  | .flush => true

/-- The call. -/
def LinkedEvent.call : LinkedEvent → Option JBufCall
  | .udpIn _ data buf => some (.udpIn data buf)
  | .flush => some .flush
  | .outside .. => none

/-- The frame that is allocated, unless the datagram is rejected. -/
def LinkedEvent.allocated : LinkedEvent → Option ℕ
  | .udpIn fp _ buf => if (parsed buf).isSome then some fp else none
  | _ => none

/-- The frames in a result, but for the erasure. -/
def LinkedOut.handed (ers : ℕ) (o : LinkedOut) : List ℕ :=
  o.drop.map Prod.fst ++ (o.ready.map Prod.fst).filter (· ≠ ers)

/-- The result without the addresses. -/
def LinkedOut.contents (o : LinkedOut) : ℤ × List RtpFrame × List RtpFrame :=
  (o.error, o.ready.map Prod.snd, o.drop.map Prod.snd)

/-- The result on the list in the same form. -/
def RjbUdpInR.contents (r : RjbUdpInR) : ℤ × List RtpFrame × List RtpFrame :=
  (r.error, r.ready, r.drop.map .rtp)

section shown

variable {owned : List ℕ} {ers : ℕ} {res : LinkedResult}

theorem map_fst_read {p : Option ℕ} (h : ListsFrom ⟨p, mem.next⟩ none xs) (hfuel : xs.length ≤ fuel) :
    (mem.read fuel p).map Prod.fst = xs ∧ (mem.read fuel p).map Prod.snd = xs.map mem.frame := by
  rw [FrameMem.read, follow_eq h hfuel, List.map_map, List.map_map]
  exact ⟨List.map_id _, rfl⟩

/-- What the caller finds after a call. -/
theorem Outcome.shown (h : Outcome owned ers res s' r xs rs ds gone) (hfuel : owned.length + 1 ≤ fuel) :
    ∃ o, res.shown fuel = (⟨res.mem, res.rjbp⟩, some o) ∧ o.contents = r.contents ∧
      (xs ++ o.handed ers).Perm owned := by
  have hlen := h.perm.length_eq
  have hgone := h.hands.perm.length_eq
  rw [List.length_append] at hlen hgone
  have hrs : rs.length ≤ (rs.filter (· ≠ ers)).length + 1 := by
    have hcount := List.nodup_iff_count_le_one.mp h.hands.ready.nodup ers
    have hsum := List.length_eq_countP_add_countP (· == ers) (l := rs)
    have hne : rs.countP (fun a => decide ¬ (a == ers) = true) = (rs.filter (· ≠ ers)).length := by
      rw [List.countP_eq_length_filter]
      congr 1
      refine List.filter_congr fun a _ => ?_
      simp
    rw [hne] at hsum
    rw [List.count] at hcount
    omega
  obtain ⟨hready, hreadyf⟩ := map_fst_read h.hands.ready (by omega : rs.length ≤ fuel)
  obtain ⟨hdrop, hdropf⟩ := map_fst_read h.hands.drop (by omega : ds.length ≤ fuel)
  refine ⟨_, rfl, ?_, ?_⟩
  · rw [LinkedOut.contents, RjbUdpInR.contents, hreadyf, hdropf, h.error, h.hands.ready_frames,
      h.hands.drop_frames]
  · rw [LinkedOut.handed, hready, hdrop]
    exact (h.hands.perm.append_left xs).trans h.perm

end shown

/-- The frames of a run: `xs` are in the list, the others were handed out. -/
structure LinkedInv (ers : ℕ) (events : List LinkedEvent) (os : List (Option LinkedOut))
    (st : LinkedSys) (s : RtpjbufInst) (outs : List RjbUdpInR) (xs : List ℕ) : Prop where
  buf : BufList st.mem st.rjbp xs
  inst : s = st.rjbp.inst (xs.map st.mem.packet)
  ersFrame : st.rjbp.ersFrame = ers
  contents : (os.filterMap id).map LinkedOut.contents = outs.map RjbUdpInR.contents
  perm : (xs ++ (os.filterMap id).flatMap (LinkedOut.handed ers)).Perm
    (events.filterMap LinkedEvent.allocated)

section runs

variable {ers : ℕ} {events : List LinkedEvent} {event : LinkedEvent} {os : List (Option LinkedOut)}
  {st st' : LinkedSys} {s : RtpjbufInst} {outs : List RjbUdpInR}

theorem LinkedInv.length_le (h : LinkedInv ers events os st s outs xs) : xs.length ≤ events.length := by
  have hlen := h.perm.length_eq
  rw [List.length_append] at hlen
  have := List.length_filterMap_le LinkedEvent.allocated events
  omega

/-- A call comes to what it comes to on the list. -/
theorem LinkedInv.call (h : LinkedInv ers events os st s outs xs) {res : LinkedResult} {new : List ℕ}
    (hfuel : events.length + 2 ≤ fuel) (hnew : new.length ≤ 1)
    (hres : Refines (new ++ xs) st.rjbp.ersFrame res s' r)
    (halloc : [event].filterMap LinkedEvent.allocated = new) :
    ∃ o xs', res.shown fuel = (⟨res.mem, res.rjbp⟩, some o) ∧
      LinkedInv ers (events ++ [event]) (os ++ [some o]) ⟨res.mem, res.rjbp⟩ s' (outs ++ [r]) xs' := by
  obtain ⟨xs', rs, ds, gone, hout⟩ := hres
  have hlen : (new ++ xs).length + 1 ≤ fuel := by
    have := h.length_le
    rw [List.length_append]
    omega
  obtain ⟨o, hshown, hcontents, hperm⟩ := hout.shown hlen
  rw [h.ersFrame] at hperm
  refine ⟨o, xs', hshown, ⟨hout.buf, hout.inst, hout.ersFrame.trans h.ersFrame, ?_, ?_⟩⟩
  · rw [List.filterMap_append, List.map_append, List.map_append, h.contents]
    exact congrArg (_ ++ [·]) hcontents
  · rw [List.filterMap_append, List.filterMap_append, halloc, List.flatMap_append]
    show (xs' ++ (_ ++ (o.handed ers ++ []))).Perm _
    rw [List.append_nil]
    refine (List.perm_append_comm.append_left xs').trans ?_
    rw [← List.append_assoc]
    refine (hperm.append_right _).trans ?_
    rw [List.append_assoc]
    exact (h.perm.append_left new).trans List.perm_append_comm

theorem LinkedInv.frames (h : LinkedInv ers events os st s outs xs) (hfuel : events.length ≤ fuel) :
    st.frames fuel = xs := follow_eq h.buf.list (h.length_le.trans hfuel)

/-- **One event.**  With a call, `outs'` is its result on the list. -/
theorem LinkedInv.step {outs' : List RjbUdpInR} (h : LinkedInv ers events os st s outs xs)
    (hfuel : events.length + 2 ≤ fuel) (hfits : event.fits fuel st = true)
    (hlist : run jbufStep s event.call.toList = some (s', outs')) :
    ∃ st' o xs', linkedStep fuel st event = some (st', o) ∧
      LinkedInv ers (events ++ [event]) (os ++ [o]) st' s' (outs ++ outs') xs' := by
  have hlen := h.length_le
  have hframes : st.frames fuel = xs := h.frames (by omega)
  rw [h.inst] at hlist
  cases event with
  | udpIn fp data buf =>
    obtain ⟨r, hs, rfl⟩ := run_singleton_eq_some.mp hlist
    rw [LinkedEvent.fits, hframes, decide_eq_true_eq] at hfits
    obtain ⟨res, hcode, hres⟩ := rtpjbufUdpInAt_refines h.buf hfits.1 (Ne.symm hfits.2)
      (by omega : xs.length < fuel) hs
    have hnew : (if (parsed buf).isSome then [fp] else []).length ≤ 1 := by
      split <;> simp
    have halloc : [LinkedEvent.udpIn fp data buf].filterMap LinkedEvent.allocated =
        if (parsed buf).isSome then [fp] else [] := by
      by_cases hp : (parsed buf).isSome <;> simp [LinkedEvent.allocated, hp]
    obtain ⟨o, xs', hshown, hinv⟩ := h.call hfuel hnew hres halloc
    exact ⟨_, some o, xs', by rw [linkedStep, hcode, Option.map_some, hshown], hinv⟩
  | flush =>
    obtain ⟨r, hs, rfl⟩ := run_singleton_eq_some.mp hlist
    obtain ⟨res, hcode, hres⟩ := flushAt_refines h.buf (by omega : 2 * xs.length ≤ 2 * fuel) hs
    have hres : Refines ([] ++ xs) st.rjbp.ersFrame res s' r := hres
    have halloc : [LinkedEvent.flush].filterMap LinkedEvent.allocated = [] := rfl
    obtain ⟨o, xs', hshown, hinv⟩ := h.call hfuel (Nat.zero_le _) hres halloc
    exact ⟨_, some o, xs', by rw [linkedStep, hcode, Option.map_some, hshown], hinv⟩
  | outside a frame next =>
    simp only [LinkedEvent.call, Option.toList_none, run_nil, Option.some.injEq, Prod.mk.injEq] at hlist
    obtain ⟨rfl, rfl⟩ := hlist
    rw [LinkedEvent.fits, hframes, decide_eq_true_eq] at hfits
    -- the memory of the buffer is as before
    have hsame : ∀ b ∈ xs, Function.update st.mem.frame a frame b = st.mem.frame b ∧
        Function.update st.mem.next a next b = st.mem.next b := by
      intro b hb
      have hne : b ≠ a := by
        rintro rfl
        exact hfits.1 hb
      exact ⟨Function.update_of_ne hne _ _, Function.update_of_ne hne _ _⟩
    refine ⟨_, none, xs, rfl, ⟨h.buf.congr rfl rfl hsame, ?_, h.ersFrame, ?_, ?_⟩⟩
    · exact congrArg st.rjbp.inst (map_packet_congr fun b hb => (hsame b hb).1).symm
    · rw [List.filterMap_append, List.append_nil]
      exact (congrArg (List.map LinkedOut.contents) (List.append_nil _)).trans h.contents
    · rw [List.filterMap_append, List.filterMap_append]
      show (xs ++ (os.filterMap id ++ []).flatMap _).Perm (_ ++ [])
      rw [List.append_nil, List.append_nil]
      exact h.perm

end runs

end Rtp
