/-
The delivered stream is ordered and has no holes.

`Tiles a frames b` says that `frames` continue a stream whose last number is
`a` up to the number `b`: packets follow one another, and an erasure covers
exactly what is missing in front of the next packet.  Each of the four ways in
which frames leave the buffer (at once, when a gap is filled, when the buffer
is full, at a flush) tiles from the `last_lseq` before the call to the one
after it (`jbufStep_delivers`); over a run this is `jbufRun_tiles`.
-/
import LibRtpSynth.JBufInvariant

open CWords Runs

namespace Rtp

variable {s s' : RtpjbufInst} {r : RjbUdpInR} {fp : RtpPacket} {drop : List RtpPacket}

/-! ### Tilings -/

/-- The frames `frames` lead from the number `a` to the number `b` without a
hole. -/
inductive Tiles : ℕ → List RtpFrame → ℕ → Prop
  | nil (a : ℕ) : Tiles a [] a
  | next {a b : ℕ} {p : RtpPacket} {frames : List RtpFrame} (hp : p.lseq = a + 1)
      (h : Tiles p.lseq frames b) : Tiles a (.rtp p :: frames) b
  | gap {a b : ℕ} {e : ErsFrame} {p : RtpPacket} {frames : List RtpFrame}
      (hstart : e.lseqStart = a + 1) (hle : e.lseqStart ≤ e.lseqEnd)
      (hend : e.lseqEnd + 1 = p.lseq) (h : Tiles p.lseq frames b) :
      Tiles a (.ers e :: .rtp p :: frames) b

theorem Tiles.append {a b c : ℕ} {fs gs : List RtpFrame} (h : Tiles a fs b) (h' : Tiles b gs c) :
    Tiles a (fs ++ gs) c := by
  induction h with
  | nil => exact h'
  | next hp _ ih => exact .next hp (ih h')
  | gap hstart hle hend _ ih => exact .gap hstart hle hend (ih h')

/-- Two frames that may stand next to each other in a delivered stream. -/
def Abuts : RtpFrame → RtpFrame → Prop
  | .rtp p, .rtp q => q.lseq = p.lseq + 1
  | .rtp p, .ers e => e.lseqStart = p.lseq + 1
  | .ers e, .rtp q => e.lseqEnd + 1 = q.lseq
  | .ers _, .ers _ => False

/-- The frame is a packet. -/
def RtpFrame.isRtp : RtpFrame → Bool
  | .rtp _ => true
  | .ers _ => false

theorem Tiles.abuts {b : ℕ} {p : RtpPacket} {fs : List RtpFrame} (h : Tiles p.lseq fs b) :
    (.rtp p :: fs).IsChain Abuts := by
  -- the start of the tiling is an index of the induction, so it has to be a variable
  generalize ha : p.lseq = a at h
  induction h generalizing p with
  | nil => exact List.isChain_singleton _
  | next hp _ ih =>
    subst ha
    exact List.isChain_cons_cons.mpr ⟨hp, ih rfl⟩
  | gap hstart _ hend _ ih =>
    subst ha
    exact List.isChain_cons_cons.mpr ⟨hstart, List.isChain_cons_cons.mpr ⟨hend, ih rfl⟩⟩

theorem Tiles.increasing {a b : ℕ} {fs : List RtpFrame} (h : Tiles a fs b) :
    (a :: (rtps fs).map RtpPacket.lseq).Pairwise (· < ·) := by
  -- a smaller number in front of an increasing list
  have extend : ∀ {a n : ℕ} {ns : List ℕ}, a < n → (n :: ns).Pairwise (· < ·) →
      (a :: n :: ns).Pairwise (· < ·) := by
    intro a n ns hlt hpw
    refine List.pairwise_cons.mpr ⟨fun m hm => ?_, hpw⟩
    rcases List.mem_cons.mp hm with rfl | hm
    · exact hlt
    · exact hlt.trans ((List.pairwise_cons.mp hpw).1 m hm)
  induction h with
  | nil => exact List.pairwise_singleton _ _
  | next hp _ ih => exact extend (by omega) ih
  | gap hstart hle hend _ ih => exact extend (by omega) ih

theorem Tiles.erasures {a b : ℕ} {fs : List RtpFrame} (h : Tiles a fs b) :
    ∀ e, .ers e ∈ fs → e.lseqStart ≤ e.lseqEnd := by
  induction h with
  | nil =>
    intro e he
    cases he
  | next hp _ ih =>
    intro e he
    exact ih e (by simpa using he)
  | gap hstart hle hend _ ih =>
    intro e he
    rcases List.mem_cons.mp he with heq | he
    · rw [RtpFrame.ers.inj heq]
      exact hle
    · exact ih e (by simpa using he)

/-- A tiling ends with the packet it leads to. -/
theorem Tiles.getLast {b : ℕ} {p : RtpPacket} {fs : List RtpFrame} (h : Tiles p.lseq fs b) :
    ∃ q, (.rtp p :: fs).getLast? = some (.rtp q) ∧ q.lseq = b := by
  generalize ha : p.lseq = a at h
  induction h generalizing p with
  | nil => exact ⟨p, rfl, ha⟩
  | next hp _ ih =>
    obtain ⟨q, hq, hb⟩ := ih rfl
    exact ⟨q, by rw [List.getLast?_cons_cons, hq], hb⟩
  | gap hstart _ hend _ ih =>
    obtain ⟨q, hq, hb⟩ := ih rfl
    exact ⟨q, by rw [List.getLast?_cons_cons, List.getLast?_cons_cons, hq], hb⟩

/-! ### One call -/

/-- A run of consecutive packets tiles. -/
theorem tiles_of_chain {ifp : RtpPacket} : ∀ {run : List RtpPacket} {f₀ : RtpPacket}
    {tl : List RtpPacket}, run ++ [ifp] = f₀ :: tl → (f₀ :: tl).IsChain Follows →
    (∀ p ∈ f₀ :: tl, p.lseq < lmsDefault) → Tiles f₀.lseq (tl.map .rtp) ifp.lseq := by
  intro run
  induction run with
  | nil =>
    intro f₀ tl hrun _ _
    rw [List.nil_append, List.cons.injEq] at hrun
    obtain ⟨rfl, rfl⟩ := hrun
    exact .nil _
  | cons q run ih =>
    intro f₀ tl hrun hchain hlt
    rw [List.cons_append, List.cons.injEq] at hrun
    obtain ⟨rfl, rfl⟩ := hrun
    -- the run goes on with `f₁`, which follows `q`
    obtain ⟨f₁, tl, htl⟩ : ∃ f₁ tl, run ++ [ifp] = f₁ :: tl :=
      List.exists_cons_of_ne_nil (by simp)
    rw [htl] at hchain hlt ⊢
    obtain ⟨hfollows, hchain⟩ := List.isChain_cons_cons.mp hchain
    rw [follows_iff (hlt q List.mem_cons_self)] at hfollows
    exact .next hfollows (ih htl hchain fun p hp => hlt p (List.mem_cons_of_mem _ hp))

/-- An erasure and the packet behind it continue the stream. -/
theorem tiles_ersBefore (hlt : s.lastLseq < fp.lseq) (hfp : fp.lseq < lmsDefault) :
    Tiles s.lastLseq (ersBefore s fp ++ [.rtp fp]) fp.lseq := by
  have hadd : add64 s.lastLseq 1 = s.lastLseq + 1 := add64_one (hlt.trans hfp)
  rcases ersBefore_cases s fp with ⟨heq, hers⟩ | ⟨hne, e, hers, hstart, hend⟩
  · rw [hers]
    rw [hadd] at heq
    exact .next heq.symm (.nil _)
  · rw [hers]
    rw [hadd] at hne hstart
    rw [sub64_one hfp (by omega)] at hend
    exact .gap hstart (by omega) (by omega) (.nil _)

/-- What a call delivers: nothing; the continuation of the stream; or its
start, which may have erasures in front. -/
inductive Delivers (last last' : ℕ) (ready : List RtpFrame) : Prop
  | nothing (hready : ready = []) (hlast : last' = last)
  | more (hwarm : last ≠ lrsDefault) (hne : ready ≠ []) (hlast : last' < lrsDefault)
      (h : Tiles last ready last')
  | start (hwarm : last = lrsDefault) (hlast : last' < lrsDefault) (es : List RtpFrame)
      (hes : ∀ f ∈ es, f.isRtp = false) (p : RtpPacket) (frames : List RtpFrame)
      (hready : ready = es ++ .rtp p :: frames) (h : Tiles p.lseq frames last')

/-- The packets `run ++ [ifp]`, with the erasure in front of them. -/
theorem delivers_run {es : List RtpFrame} {run : List RtpPacket} {ifp f₀ : RtpPacket}
    (hfirst : (run ++ [ifp]).head? = some f₀) (hchain : (run ++ [ifp]).IsChain Follows)
    (hlt : ∀ p ∈ run ++ [ifp], p.lseq < lmsDefault)
    (hes : es = ersBefore s f₀ ∨ (s.lastLseq = lrsDefault ∧ es = []))
    (hlast : s.lastLseq = lrsDefault ∨ s.lastLseq < f₀.lseq) :
    Delivers s.lastLseq ifp.lseq (es ++ (run ++ [ifp]).map .rtp) := by
  obtain ⟨tl, htl⟩ := List.head?_eq_some_iff.mp hfirst
  rw [htl] at hchain hlt ⊢
  have htiles := tiles_of_chain htl hchain hlt
  have hifp : ifp.lseq < lrsDefault := hlt ifp (by rw [← htl]; simp)
  have hers : ∀ f ∈ es, f.isRtp = false := by
    rcases hes with rfl | ⟨-, rfl⟩
    · rcases ersBefore_cases s f₀ with ⟨-, h⟩ | ⟨-, e, h, -⟩
      · rw [h]; simp
      · rw [h]; simp [RtpFrame.isRtp]
    · simp
  -- during warm-up the run starts the stream, later it continues it
  by_cases hwarm : s.lastLseq = lrsDefault
  · exact .start hwarm hifp es hers f₀ (tl.map .rtp) rfl htiles
  · obtain rfl := hes.resolve_right fun hc => hwarm hc.1
    have hhead := tiles_ersBefore (hlast.resolve_left hwarm) (hlt f₀ List.mem_cons_self)
    refine .more hwarm (by simp) hifp ?_
    have := hhead.append htiles
    rwa [List.append_assoc] at this

theorem Placed.delivers (h : JInv s) (hfp : fp.lseq < lmsDefault) (hp : Placed s fp drop s' r) :
    Delivers s.lastLseq s'.lastLseq r.ready := by
  cases hp with
  | late | lateDup | dup | hold | insert => exact .nothing rfl rfl
  | deliver hhead hmax hnext =>
    rcases hnext with ⟨hwarm, heq, hlt⟩ | ⟨hwarm, -⟩
    · refine .more hwarm (by simp) hfp (.next ?_ (.nil _))
      rw [sub64_one hfp (by omega)] at heq
      omega
    · exact .start hwarm hfp [] (by simp) fp [] rfl (.nil _)
  | release pre post f₀ run ifp next hins hrel =>
    obtain ⟨-, hlt, -⟩ := hins.inv h hfp
    refine delivers_run (s := insertedInst s fp pre post) hrel.first hrel.chain ?_ ?_ ?_
    · intro p hp
      refine hlt p.lseq (List.mem_map_of_mem ?_)
      rw [hrel.head]
      rcases List.mem_append.mp hp with hp | hp
      · exact List.mem_append_left _ hp
      · exact List.mem_append_right _ (by simp_all)
    · by_cases hwarm : (insertedInst s fp pre post).lastLseq = lrsDefault
      · exact .inr ⟨hwarm, if_pos hwarm⟩
      · exact .inl (if_neg hwarm)
    · exact hrel.last_lt.imp_right And.left

theorem Flushed.delivers {front seg : List RtpPacket} {ifp f₀ : RtpPacket} (h : JInv s)
    (hfl : Flushed s front seg ifp f₀ drop) :
    Delivers s.lastLseq ifp.lseq (ersBefore s f₀ ++ (seg ++ [ifp]).map .rtp) := by
  refine delivers_run hfl.first hfl.chain (fun p hp => ?_) (.inl rfl) ?_
  · refine h.lt p.lseq (List.mem_map_of_mem ?_)
    rw [hfl.head]
    exact List.mem_append_right _ hp
  · refine or_iff_not_imp_left.mpr fun hwarm => ?_
    have hmem : f₀ ∈ s.head := by
      rw [hfl.head]
      exact List.mem_append_right _ (List.mem_of_head? hfl.first)
    rcases h.gap with hgap | ⟨n, hn, hle, -⟩
    · have := h.last_add_two_le hgap hwarm f₀.lseq (List.mem_map_of_mem hmem)
      omega
    · -- a stuck frame is not flushed: its number is not new
      have hifp : ifp ∈ s.head := by rw [hfl.head]; simp
      have : ifp.lseq ∈ lseqs s := List.mem_map_of_mem hifp
      rw [hn, List.mem_singleton] at this
      have := hfl.last_lt.resolve_left hwarm
      omega

/-- **One call continues the stream.** -/
theorem jbufStep_delivers (h : JInv s) {call : JBufCall} (hs : jbufStep s call = some (s', r))
    (hok : call.notSentinel s) : Delivers s.lastLseq s'.lastLseq r.ready := by
  cases jbufStep_cases hs with
  | rejected => exact .nothing rfl (purgeStaleTail_lastLseq s)
  | placed info hparse hp =>
    have hdel := hp.delivers (h.purge.assign _) (hok info hparse)
    rwa [assign_lastLseq, purgeStaleTail_lastLseq] at hdel
  | idle => exact .nothing rfl rfl
  | flushed front seg ifp f₀ drop hfl => exact hfl.delivers h

/-! ### Runs -/

/-- All frames delivered by a run, in order. -/
def stream (outs : List RjbUdpInR) : List RtpFrame := outs.flatMap RjbUdpInR.ready

@[simp] theorem stream_concat (outs : List RjbUdpInR) (r : RjbUdpInR) :
    stream (outs ++ [r]) = stream outs ++ r.ready := by
  simp [stream]

/-- The stream from its first packet on. -/
def fromFirstPacket (frames : List RtpFrame) : List RtpFrame :=
  frames.dropWhile fun f => !f.isRtp

/-- What was delivered so far leads to `last_lseq`. -/
inductive Delivered (frames : List RtpFrame) (last : ℕ) : Prop
  | nothing (hframes : frames = []) (hlast : last = lrsDefault)
  | some (hlast : last < lrsDefault) (es : List RtpFrame) (hes : ∀ f ∈ es, f.isRtp = false)
      (p : RtpPacket) (rest : List RtpFrame) (hframes : frames = es ++ .rtp p :: rest)
      (h : Tiles p.lseq rest last)

theorem Delivered.step {frames ready : List RtpFrame} {last last' : ℕ} (h : Delivered frames last)
    (hr : Delivers last last' ready) : Delivered (frames ++ ready) last' := by
  cases hr with
  | nothing hready hlast =>
    subst hready hlast
    rw [List.append_nil]
    exact h
  | more hwarm hne hlast' htiles =>
    cases h with
    | nothing _ hlast => exact absurd hlast hwarm
    | some _ es hes p rest hframes h =>
      exact .some hlast' es hes p (rest ++ ready) (by simp [hframes]) (h.append htiles)
  | start hwarm hlast' es hes p rest hready htiles =>
    cases h with
    | nothing hframes _ => exact .some hlast' es hes p rest (by simp [hframes, hready]) htiles
    -- the stream starts only once
    | some hlast => omega

theorem fromFirstPacket_eq {es : List RtpFrame} (hes : ∀ f ∈ es, f.isRtp = false) (p : RtpPacket)
    (rest : List RtpFrame) : fromFirstPacket (es ++ .rtp p :: rest) = .rtp p :: rest := by
  rw [fromFirstPacket, List.dropWhile_append_of_pos (by simpa using hes)]
  rfl

/-- **The delivered stream is ordered and gap-exact.**  From its first packet on
the numbers of the packets increase, neighbouring frames abut, an erasure covers
at least one number and stands between two packets. -/
theorem jbufRun_tiles {capacity : ℕ} (hcap : capacity < 2 ^ 32) {calls : List JBufCall}
    (hlen : calls.length < 2 ^ 47)
    (hpre : Always jbufStep (fun s call => call.preWrapOk s) (rtpjbufCtor capacity) calls)
    {outs : List RjbUdpInR} (hrun : run jbufStep (rtpjbufCtor capacity) calls = some (s, outs)) :
    ((rtps (fromFirstPacket (stream outs))).map RtpPacket.lseq).Pairwise (· < ·) ∧
    (fromFirstPacket (stream outs)).IsChain Abuts ∧
    (∀ e, .ers e ∈ fromFirstPacket (stream outs) → e.lseqStart ≤ e.lseqEnd) ∧
    (∀ f ∈ (fromFirstPacket (stream outs)).head?, f.isRtp) ∧
    (∀ f ∈ (fromFirstPacket (stream outs)).getLast?, f.isRtp) := by
  have hinv : calls.length < 2 ^ 47 →
      JInv s ∧ s.lseqMask ≤ 65536 * calls.length ∧ Delivered (stream outs) s.lastLseq := by
    -- the bound on the number of calls keeps the epoch below the sentinel
    refine run_induction (fun calls outs s => calls.length < 2 ^ 47 →
      JInv s ∧ s.lseqMask ≤ 65536 * calls.length ∧ Delivered (stream outs) s.lastLseq)
      (fun _ => ⟨jInv_ctor hcap, Nat.zero_le _, .nothing rfl rfl⟩) ?_ hpre hrun
    intro calls outs s call s' r hinv hpre hs hlen
    rw [List.length_append, List.length_singleton] at hlen ⊢
    obtain ⟨hj, hmask, hdel⟩ := hinv (by omega)
    have hok := hj.notSentinel_of_preWrapOk hpre (by omega)
    refine ⟨hj.step hs hok, ?_, ?_⟩
    · have := jbufStep_lseqMask_le hj.mask_mod hs
      omega
    · have hstream : stream (outs ++ [r]) = stream outs ++ r.ready := by simp [stream]
      rw [hstream]
      exact hdel.step (jbufStep_delivers hj hs hok)
  obtain ⟨-, -, hdel⟩ := hinv hlen
  cases hdel with
  | nothing hframes => rw [hframes]; simp [fromFirstPacket, rtps]
  | some _ es hes p rest hframes htiles =>
    rw [hframes, fromFirstPacket_eq hes]
    refine ⟨htiles.increasing, htiles.abuts, fun e he => ?_, by simp [RtpFrame.isRtp], ?_⟩
    · exact htiles.erasures e (by simpa using he)
    · obtain ⟨q, hq, -⟩ := htiles.getLast
      intro f hf
      rw [Option.mem_def, hq, Option.some.injEq] at hf
      rw [← hf]; rfl

theorem jbufRun_tiles_gap :
    ∃ s outs, run jbufStep (rtpjbufCtor 3)
        [.udpIn 0 (datagram 0), .udpIn 1 (datagram 3), .udpIn 2 (datagram 5), .udpIn 3 (datagram 4)]
        = some (s, outs) ∧
      (fromFirstPacket (stream outs)).length = 5 ∧
      (fromFirstPacket (stream outs)).IsChain Abuts := by
  have hrun : (run jbufStep (rtpjbufCtor 3) [.udpIn 0 (datagram 0), .udpIn 1 (datagram 3),
      .udpIn 2 (datagram 5), .udpIn 3 (datagram 4)]).isSome := by decide
  have hsome := (Option.some_get hrun).symm
  exact ⟨_, _, hsome, by decide,
    (jbufRun_tiles (by decide) (by decide) (by decide) hsome).2.1⟩

end Rtp
