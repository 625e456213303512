/-
The Python object `RtpJBuf` (`python/RtpJBuf_mod.c`).

The object keeps, beside the C jitter buffer, a table `refs` of the `bytes`
objects that the held frames point into, together with the object the caller
passed along.  A frame is matched with its entry by comparing data pointers.

A `bytes` object is its address with its contents; the contents start at a
fixed offset from the address.  Reading through a data pointer is possible only
while the module has a reference to the object the pointer leads into: in
`build_wrapper_rtp` that is the object fetched for the frame.

* `pyRun_refs` — after every run the used entries of `refs` are those of the held
  frames, and every wrapper carries the objects passed with its datagram.

Allocations are taken to succeed.
-/
import LibRtpSynth.JBufInvariant
import LibRtpSynth.JBufRelabel

open CWords Runs
open scoped List

namespace Rtp

/-! ### Objects -/

/-- A `bytes` object. -/
structure PyBytes where
  addr : ℕ
  bytes : List UInt8
  deriving DecidableEq, Repr

/-- The data pointer of a `bytes` object: `ob_sval` comes after a header of 32
bytes. -/
def PyBytes.ptr (b : PyBytes) : ℕ := b.addr + 32

/-- A Python object, as far as this module tells them apart. -/
inductive PyObject
  | pyNone
  | bytes (b : PyBytes)
  | other (addr : ℕ)
  deriving DecidableEq, Repr

/-- `PyRtpJBufRef`; `none` and the pointer `0` are `NULL`. -/
structure PyRtpJBufRef where
  data : Option PyObject
  opaqueObj : Option PyObject
  ptr : ℕ
  deriving DecidableEq, Repr

/-- An entry that is not in use. -/
def PyRtpJBufRef.empty : PyRtpJBufRef := ⟨none, none, 0⟩

/-- `PyRtpJBuf`.  `refs` has `capacity` entries, so a loop over the indices below
`capacity` is one over the list. -/
structure PyRtpJBuf where
  jb : RtpjbufInst
  refs : List PyRtpJBufRef
  dropped : ℕ
  deriving DecidableEq, Repr

/-- `PyFrameWrapper`.  The members of a wrapper for an erasure are `None`.
`rtpData` is `none` when the payload is read through a pointer to an object that
the module does not hold. -/
inductive PyFrameWrapper
  | rtp (content : RtpPacket) (data opaqueObj : Option PyObject) (rtpData : Option (List UInt8))
  | ers (content : ErsFrame)
  deriving DecidableEq, Repr

/-- `PyRtpJBuf_init`. -/
def pyRtpJBufInit (capacity : ℕ) : PyRtpJBuf where
  jb := rtpjbufCtor capacity
  refs := List.replicate capacity .empty
  dropped := 0

/-! ### The table -/

/-- `fetch_cached_ref`: the entry for `ptr` is taken out of the table. -/
def fetchCachedRef (ptr : ℕ) :
    List PyRtpJBufRef → (Option PyObject × Option PyObject) × List PyRtpJBufRef
  | [] => ((some .pyNone, some .pyNone), [])
  | ref :: refs =>
    if ref.ptr = ptr then ((ref.data, ref.opaqueObj), .empty :: refs)
    else
      let r := fetchCachedRef ptr refs
      (r.1, ref :: r.2)

/-- `fetch_ready_ref`: a packet of the datagram just passed in has no entry. -/
def fetchReadyRef (refs : List PyRtpJBufRef) (ptr : ℕ) (inputBytes inputOpaque : PyObject)
    (inputPtr : ℕ) : (Option PyObject × Option PyObject) × List PyRtpJBufRef :=
  if ptr = inputPtr then ((some inputBytes, some inputOpaque), refs)
  else fetchCachedRef ptr refs

/-- `store_data_ref`; `none` when the table is exhausted. -/
def storeDataRef (inputBytes inputOpaque : PyObject) (ptr : ℕ) :
    List PyRtpJBufRef → Option (List PyRtpJBufRef)
  | [] => none
  | ref :: refs =>
    if ref.data = none then some (⟨some inputBytes, some inputOpaque, ptr⟩ :: refs)
    else (storeDataRef inputBytes inputOpaque ptr refs).map (ref :: ·)

/-- `list_has_data_ptr`. -/
def listHasDataPtr (fp : List RtpPacket) (ptr : ℕ) : Bool := fp.any fun p => p.data = ptr

/-- `build_wrapper_rtp`. -/
def buildWrapperRtp (fp : RtpPacket) (data opaqueObj : Option PyObject) : PyFrameWrapper :=
  .rtp fp data opaqueObj <|
    -- nothing is read for an empty payload
    if fp.info.dataSize = 0 then some []
    else
      match data with
      | some (.bytes b) =>
        if b.ptr = fp.data then some (slice b.bytes fp.info.dataOffset fp.info.dataSize) else none
      | _ => none

/-- `process_ready_list`. -/
def processReadyList (inputBytes inputOpaque : PyObject) (inputPtr : ℕ) :
    List PyRtpJBufRef → List RtpFrame → List PyFrameWrapper × List PyRtpJBufRef
  | refs, [] => ([], refs)
  | refs, .rtp p :: fp =>
    let ref := fetchReadyRef refs p.data inputBytes inputOpaque inputPtr
    let rest := processReadyList inputBytes inputOpaque inputPtr ref.2 fp
    (buildWrapperRtp p ref.1.1 ref.1.2 :: rest.1, rest.2)
  | refs, .ers e :: fp =>
    let rest := processReadyList inputBytes inputOpaque inputPtr refs fp
    (.ers e :: rest.1, rest.2)

/-- `process_drop_list`. -/
def PyRtpJBuf.processDropList (inputPtr : ℕ) : PyRtpJBuf → List RtpPacket → PyRtpJBuf
  | self, [] => self
  | self, p :: fp =>
    PyRtpJBuf.processDropList inputPtr
      { self with
        refs :=
          if inputPtr = 0 ∨ p.data ≠ inputPtr then (fetchCachedRef p.data self.refs).2
          else self.refs
        dropped := add64 self.dropped 1 } fp

/-! ### Calls -/

/-- `NO_INPUT_PTR`. -/
def noInputPtr : ℕ := 1

/-- The calls of a user of the object.  `udp_in` gets the `bytes` object that
`ensure_bytes` makes of its argument. -/
inductive PyCall
  | udpIn (inputBytes : PyBytes) (inputOpaque : PyObject)
  | flush
  deriving DecidableEq, Repr

/-- What a call returns or raises. -/
inductive PyResult
  | ready (wrappers : List PyFrameWrapper)
  | parseError (error : ℤ)
  | runtimeError (error : ℤ)
  | exhausted
  deriving DecidableEq, Repr

/-- `PyRtpJBuf_udp_in` after the call of `rtpjbuf_udp_in`. -/
def PyRtpJBuf.udpInDone (self : PyRtpJBuf) (input : PyBytes) (inputOpaque : PyObject)
    (ruir : RjbUdpInR) : PyRtpJBuf × PyResult :=
  if ruir.error ≠ 0 then
    (self.processDropList input.ptr ruir.drop,
      if ruir.error < RtpParserErr.ok.code then .parseError ruir.error
      else .runtimeError ruir.error)
  else
    let retained :=
      !(listHasDataPtr (rtps ruir.ready) input.ptr || listHasDataPtr ruir.drop input.ptr)
    match if retained then storeDataRef (.bytes input) inputOpaque input.ptr self.refs
      else some self.refs with
    | none =>
      ((self.processDropList input.ptr (rtps ruir.ready)).processDropList input.ptr ruir.drop,
        .exhausted)
    | some refs =>
      let ready := processReadyList (.bytes input) inputOpaque input.ptr refs ruir.ready
      (({ self with refs := ready.2 } : PyRtpJBuf).processDropList input.ptr ruir.drop,
        .ready ready.1)

/-- One call; `none` when the C library aborts. -/
def pyStep (self : PyRtpJBuf) : PyCall → Option (PyRtpJBuf × PyResult)
  | .udpIn input inputOpaque =>
    (rtpjbufUdpIn self.jb input.ptr input.bytes).map fun p =>
      ({ self with jb := p.1 } : PyRtpJBuf).udpInDone input inputOpaque p.2
  | .flush =>
    (rtpjbufFlush self.jb).map fun p =>
      let ready := processReadyList .pyNone .pyNone noInputPtr self.refs p.2.ready
      (({ self with jb := p.1, refs := ready.2 } : PyRtpJBuf).processDropList noInputPtr p.2.drop,
        .ready ready.1)

/-! ### Who an entry belongs to -/

section tags

-- the arguments of the call that a tag stands for
variable (obj : ℕ → PyBytes × PyObject)

/-- The data pointer of a tag. -/
def ptrOf (t : ℕ) : ℕ := (obj t).1.ptr

/-- The entry of a tag. -/
def refOf (t : ℕ) : PyRtpJBufRef := ⟨some (.bytes (obj t).1), some (obj t).2, ptrOf obj t⟩

/-- The wrapper for a frame whose data pointer stands for a tag. -/
def wrapOf : RtpFrame → PyFrameWrapper
  | .rtp p => .rtp (p.relabel (ptrOf obj)) (some (.bytes (obj p.data).1)) (some (obj p.data).2)
      (some (slice (obj p.data).1.bytes p.info.dataOffset p.info.dataSize))
  | .ers e => .ers e

/-- The entries in use are those of the tags `ts`. -/
structure Holds (refs : List PyRtpJBufRef) (ts : List ℕ) : Prop where
  used : refs.filter (fun ref => ref.data.isSome) ~ ts.map (refOf obj)
  unused : ∀ ref ∈ refs, ref.data = none → ref = .empty

variable {obj} {refs : List PyRtpJBufRef} {t : ℕ} {ts : List ℕ}

theorem ptrOf_ne {n : ℕ} (h : n < 32) : ptrOf obj t ≠ n := by
  unfold ptrOf PyBytes.ptr
  omega

theorem Holds.perm {ts' : List ℕ} (h : Holds obj refs ts) (hp : ts ~ ts') : Holds obj refs ts' :=
  ⟨h.used.trans (hp.map _), h.unused⟩

theorem holds_replicate (capacity : ℕ) : Holds obj (List.replicate capacity .empty) [] := by
  constructor
  · have : (List.replicate capacity PyRtpJBufRef.empty).filter
        (fun ref => ref.data.isSome) = [] := by
      rw [List.filter_eq_nil_iff]
      intro ref hmem
      rw [List.eq_of_mem_replicate hmem]
      exact Bool.false_ne_true
    rw [this]
    exact List.Perm.refl _
  · intro ref hmem _
    exact List.eq_of_mem_replicate hmem

/-- An entry with a data pointer is that of a tag. -/
theorem Holds.of_mem (h : Holds obj refs ts) (ref : PyRtpJBufRef) (hmem : ref ∈ refs)
    (hptr : ref.ptr ≠ 0) : ∃ u ∈ ts, refOf obj u = ref := by
  have hused : ref.data.isSome := by
    rw [Option.isSome_iff_ne_none]
    intro hnone
    rw [h.unused ref hmem hnone] at hptr
    exact hptr rfl
  have : ref ∈ ts.map (refOf obj) := h.used.mem_iff.mp (List.mem_filter.mpr ⟨hmem, hused⟩)
  exact List.mem_map.mp this

theorem fetchCachedRef_append {ptr : ℕ} {ref : PyRtpJBufRef} (hptr : ref.ptr = ptr)
    (post : List PyRtpJBufRef) : ∀ (pre : List PyRtpJBufRef), (∀ x ∈ pre, x.ptr ≠ ptr) →
    fetchCachedRef ptr (pre ++ ref :: post) =
      ((ref.data, ref.opaqueObj), pre ++ .empty :: post) := by
  intro pre
  induction pre with
  | nil =>
    intro _
    rw [List.nil_append, fetchCachedRef, if_pos hptr]
    rfl
  | cons x pre ih =>
    intro hpre
    rw [List.cons_append, fetchCachedRef, if_neg (hpre x List.mem_cons_self),
      ih fun y hy => hpre y (List.mem_cons_of_mem x hy)]
    rfl

/-- The entry of a tag is fetched, and gone afterwards. -/
theorem Holds.fetch (h : Holds obj refs (t :: ts)) (hne : ∀ u ∈ ts, ptrOf obj u ≠ ptrOf obj t) :
    (fetchCachedRef (ptrOf obj t) refs).1 = (some (.bytes (obj t).1), some (obj t).2) ∧
      Holds obj (fetchCachedRef (ptrOf obj t) refs).2 ts ∧
      (fetchCachedRef (ptrOf obj t) refs).2.length = refs.length := by
  have hmem : refOf obj t ∈ refs :=
    (List.mem_filter.mp (h.used.mem_iff.mpr List.mem_cons_self)).1
  obtain ⟨pre, post, hsplit, hpre⟩ := List.eq_append_cons_of_mem hmem
  -- no other entry has the pointer
  have hother : ∀ x ∈ pre, x.ptr ≠ ptrOf obj t := by
    intro x hx hptr
    obtain ⟨u, hu, rfl⟩ := h.of_mem x (by rw [hsplit]; exact List.mem_append_left _ hx)
      (by rw [hptr]; exact ptrOf_ne (by decide))
    rcases List.mem_cons.mp hu with rfl | hu
    · exact hpre hx
    · exact hne u hu hptr
  rw [hsplit, fetchCachedRef_append (show (refOf obj t).ptr = ptrOf obj t from rfl) post pre hother]
  refine ⟨rfl, ⟨?_, ?_⟩, by simp⟩
  · have hused := h.used
    rw [hsplit, List.filter_append, List.filter_cons_of_pos rfl, List.map_cons] at hused
    rw [List.filter_append, List.filter_cons_of_neg (by exact Bool.false_ne_true)]
    exact (List.perm_middle.symm.trans hused).cons_inv
  · intro ref href hnone
    rcases List.mem_append.mp href with href | href
    · exact h.unused ref (by rw [hsplit]; exact List.mem_append_left _ href) hnone
    · rcases List.mem_cons.mp href with rfl | href
      · rfl
      · exact h.unused ref (by rw [hsplit]; simp [href]) hnone

theorem storeDataRef_eq (inputBytes inputOpaque : PyObject) (ptr : ℕ) :
    ∀ {refs : List PyRtpJBufRef}, (∃ ref ∈ refs, ref.data = none) →
      ∃ pre ref post, refs = pre ++ ref :: post ∧ ref.data = none ∧
        storeDataRef inputBytes inputOpaque ptr refs =
          some (pre ++ ⟨some inputBytes, some inputOpaque, ptr⟩ :: post) := by
  intro refs
  induction refs with
  | nil =>
    rintro ⟨ref, hmem, -⟩
    cases hmem
  | cons x refs ih =>
    rintro ⟨ref, hmem, hnone⟩
    by_cases hx : x.data = none
    · exact ⟨[], x, refs, rfl, hx, by rw [storeDataRef, if_pos hx]; rfl⟩
    · obtain ⟨pre, ref', post, rfl, hnone', heq⟩ := ih ⟨ref, by
        rcases List.mem_cons.mp hmem with rfl | hmem
        · exact absurd hnone hx
        · exact hmem, hnone⟩
      exact ⟨x :: pre, ref', post, rfl, hnone', by rw [storeDataRef, if_neg hx, heq]; rfl⟩

/-- A table that is not full takes another entry. -/
theorem Holds.store (h : Holds obj refs ts) (hroom : ts.length < refs.length) (t : ℕ) :
    ∃ refs', storeDataRef (.bytes (obj t).1) (obj t).2 (ptrOf obj t) refs = some refs' ∧
      Holds obj refs' (t :: ts) ∧ refs'.length = refs.length := by
  have hfree : ∃ ref ∈ refs, ref.data = none := by
    by_contra hall
    have hlen := h.used.length_eq
    rw [List.filter_eq_self.mpr, List.length_map] at hlen
    · omega
    · intro ref hmem
      rw [Option.isSome_iff_ne_none]
      exact fun hnone => hall ⟨ref, hmem, hnone⟩
  obtain ⟨pre, ref, post, hsplit, hnone, heq⟩ := storeDataRef_eq (.bytes (obj t).1) (obj t).2
    (ptrOf obj t) hfree
  subst hsplit
  refine ⟨_, heq, ⟨?_, ?_⟩, by simp⟩
  · have hused := h.used
    rw [List.filter_append, List.filter_cons_of_neg (by rw [hnone]; exact Bool.false_ne_true)] at hused
    rw [List.filter_append, List.filter_cons_of_pos rfl]
    exact List.perm_middle.trans (hused.cons _)
  · intro x hx hxnone
    rcases List.mem_append.mp hx with hx | hx
    · exact h.unused x (List.mem_append_left _ hx) hxnone
    · rcases List.mem_cons.mp hx with rfl | hx
      · cases hxnone
      · exact h.unused x (by simp [hx]) hxnone

/-- The tags of packets. -/
def tagsOf (ps : List RtpPacket) : List ℕ := ps.map RtpPacket.data

/-- The tags whose pointer is not `ptr`. -/
def without (obj : ℕ → PyBytes × PyObject) (ptr : ℕ) (ts : List ℕ) : List ℕ :=
  ts.filter fun t => ptrOf obj t ≠ ptr

theorem without_cons_of_eq {ptr : ℕ} (h : ptrOf obj t = ptr) (ts : List ℕ) :
    without obj ptr (t :: ts) = without obj ptr ts :=
  List.filter_cons_of_neg (by simpa using h)

theorem without_cons_of_ne {ptr : ℕ} (h : ptrOf obj t ≠ ptr) (ts : List ℕ) :
    without obj ptr (t :: ts) = t :: without obj ptr ts :=
  List.filter_cons_of_pos (by simpa using h)

theorem buildWrapperRtp_eq (p : RtpPacket) :
    buildWrapperRtp (p.relabel (ptrOf obj)) (some (.bytes (obj p.data).1))
      (some (obj p.data).2) = wrapOf obj (.rtp p) := by
  have hdata : (obj p.data).1.ptr = (p.relabel (ptrOf obj)).data := rfl
  rw [buildWrapperRtp, wrapOf]
  by_cases hsize : p.info.dataSize = 0
  · rw [if_pos (show (p.relabel (ptrOf obj)).info.dataSize = 0 from hsize), hsize, slice,
      List.take_zero]
  · rw [if_neg (show ¬ (p.relabel (ptrOf obj)).info.dataSize = 0 from hsize), if_pos hdata]
    rfl

/-- **The ready list**: every frame is wrapped with its own objects, and the
entries of its packets are gone. -/
theorem Holds.processReadyList {inputBytes inputOpaque : PyObject} {inputPtr : ℕ} (rest : List ℕ) :
    ∀ {ready : List RtpFrame} {refs : List PyRtpJBufRef},
      Holds obj refs (without obj inputPtr (tagsOf (rtps ready)) ++ rest) →
      ((without obj inputPtr (tagsOf (rtps ready)) ++ rest).map (ptrOf obj)).Nodup →
      (∀ t ∈ tagsOf (rtps ready), ptrOf obj t = inputPtr →
        inputBytes = .bytes (obj t).1 ∧ inputOpaque = (obj t).2) →
      ∃ refs', Rtp.processReadyList inputBytes inputOpaque inputPtr refs
          (ready.map (RtpFrame.relabel (ptrOf obj))) = (ready.map (wrapOf obj), refs') ∧
        Holds obj refs' rest ∧ refs'.length = refs.length := by
  intro ready
  induction ready with
  | nil =>
    intro refs h _ _
    exact ⟨refs, rfl, h, rfl⟩
  | cons frame ready ih =>
    intro refs h hnd hin
    cases frame with
    | ers e =>
      obtain ⟨refs', heq, h', hlen⟩ := ih h hnd hin
      refine ⟨refs', ?_, h', hlen⟩
      rw [List.map_cons, RtpFrame.relabel, Rtp.processReadyList, heq]
      rfl
    | rtp p =>
      have htags : tagsOf (rtps (.rtp p :: ready)) = p.data :: tagsOf (rtps ready) := rfl
      rw [htags] at h hnd hin
      have hin' := fun t ht => hin t (List.mem_cons_of_mem _ ht)
      rw [List.map_cons, RtpFrame.relabel, Rtp.processReadyList]
      by_cases hptr : ptrOf obj p.data = inputPtr
      · -- the datagram just passed in
        rw [without_cons_of_eq hptr] at h hnd
        obtain ⟨hbytes, hopaque⟩ := hin p.data List.mem_cons_self hptr
        obtain ⟨refs', heq, h', hlen⟩ := ih h hnd hin'
        refine ⟨refs', ?_, h', hlen⟩
        rw [fetchReadyRef, if_pos (show (p.relabel (ptrOf obj)).data = inputPtr from hptr), heq,
          hbytes, hopaque, buildWrapperRtp_eq]
        rfl
      · rw [without_cons_of_ne hptr, List.cons_append] at h hnd
        obtain ⟨hnot, hnd'⟩ := List.nodup_cons.mp hnd
        obtain ⟨hobj, h1, hlen1⟩ := h.fetch fun u hu heq =>
          hnot (heq ▸ List.mem_map_of_mem hu)
        obtain ⟨refs', heq, h', hlen⟩ := ih h1 hnd' hin'
        refine ⟨refs', ?_, h', hlen.trans hlen1⟩
        rw [fetchReadyRef, if_neg (show ¬ (p.relabel (ptrOf obj)).data = inputPtr from hptr),
          show (p.relabel (ptrOf obj)).data = ptrOf obj p.data from rfl, heq, hobj,
          buildWrapperRtp_eq]
        rfl

/-- **The drop list**: the entries of its packets are gone. -/
theorem Holds.processDropList {inputPtr : ℕ} (hinput : inputPtr ≠ 0) (rest : List ℕ) :
    ∀ {drop : List RtpPacket} {self : PyRtpJBuf},
      Holds obj self.refs (without obj inputPtr (tagsOf drop) ++ rest) →
      ((without obj inputPtr (tagsOf drop) ++ rest).map (ptrOf obj)).Nodup →
      Holds obj (self.processDropList inputPtr (drop.map (RtpPacket.relabel (ptrOf obj)))).refs rest ∧
        (self.processDropList inputPtr (drop.map (RtpPacket.relabel (ptrOf obj)))).refs.length =
          self.refs.length ∧
        (self.processDropList inputPtr (drop.map (RtpPacket.relabel (ptrOf obj)))).jb = self.jb := by
  intro drop
  induction drop with
  | nil =>
    intro self h _
    exact ⟨h, rfl, rfl⟩
  | cons p drop ih =>
    intro self h hnd
    have htags : tagsOf (p :: drop) = p.data :: tagsOf drop := rfl
    rw [htags] at h hnd
    rw [List.map_cons, PyRtpJBuf.processDropList]
    by_cases hptr : ptrOf obj p.data = inputPtr
    · rw [without_cons_of_eq hptr] at h hnd
      rw [if_neg (show ¬ (inputPtr = 0 ∨ (p.relabel (ptrOf obj)).data ≠ inputPtr) by
        rintro (h0 | hne)
        · exact hinput h0
        · exact hne hptr)]
      exact @ih { self with dropped := add64 self.dropped 1 } h hnd
    · rw [without_cons_of_ne hptr, List.cons_append] at h hnd
      obtain ⟨hnot, hnd'⟩ := List.nodup_cons.mp hnd
      obtain ⟨-, h1, hlen1⟩ := h.fetch fun u hu heq => hnot (heq ▸ List.mem_map_of_mem hu)
      rw [if_pos (show inputPtr = 0 ∨ (p.relabel (ptrOf obj)).data ≠ inputPtr from .inr hptr)]
      obtain ⟨h', hlen, hjb⟩ := @ih { self with
        refs := (fetchCachedRef (ptrOf obj p.data) self.refs).2
        dropped := add64 self.dropped 1 } h1 hnd'
      exact ⟨h', hlen.trans hlen1, hjb⟩

theorem rtps_relabel (f : ℕ → ℕ) (frames : List RtpFrame) :
    rtps (frames.map (RtpFrame.relabel f)) = (rtps frames).map (RtpPacket.relabel f) := by
  induction frames with
  | nil => rfl
  | cons frame frames ih =>
    cases frame with
    | rtp p => exact congrArg (p.relabel f :: ·) ih
    | ers e => exact ih

theorem listHasDataPtr_relabel {n : ℕ} {ps : List RtpPacket}
    (hinj : ∀ t ∈ tagsOf ps, ptrOf obj t = ptrOf obj n → t = n) :
    listHasDataPtr (ps.map (RtpPacket.relabel (ptrOf obj))) (ptrOf obj n) = true ↔
      n ∈ tagsOf ps := by
  rw [listHasDataPtr, List.any_eq_true]
  constructor
  · rintro ⟨q, hq, heq⟩
    obtain ⟨p, hp, rfl⟩ := List.mem_map.mp hq
    have hp' : p.data ∈ tagsOf ps := List.mem_map_of_mem hp
    rwa [← hinj p.data hp' (of_decide_eq_true heq)]
  · intro hn
    obtain ⟨p, hp, rfl⟩ := List.mem_map.mp hn
    exact ⟨p.relabel (ptrOf obj), List.mem_map_of_mem hp, decide_eq_true rfl⟩

end tags

/-! ### Calls keep the table right -/

section steps

variable {s : RtpjbufInst} {r : RjbUdpInR} {st st' : PyRtpJBuf} {res : PyResult}
  {obj : ℕ → PyBytes × PyObject} {capacity : ℕ}

/-- The call of the C library, with the datagram kept at the tag `n`. -/
def PyCall.tagged (n : ℕ) : PyCall → JBufCall
  | .udpIn input _ => .udpIn n input.bytes
  | .flush => .flush

/-- What Python sees of a result of the C library. -/
def resultOf (obj : ℕ → PyBytes × PyObject) (r : RjbUdpInR) : PyResult :=
  if r.error ≠ 0 then .parseError r.error else .ready (r.ready.map (wrapOf obj))

/-- The object is the `bytes` object at `addr`. -/
def PyObject.isBytesAt (addr : ℕ) : PyObject → Bool
  | .bytes b => b.addr = addr
  | _ => false

/-- The `bytes` object of the call is not one that the table refers to. -/
def PyCall.notRetained (self : PyRtpJBuf) : PyCall → Bool
  | .udpIn input _ => self.refs.all fun ref => !ref.data.any (PyObject.isBytesAt input.addr)
  | .flush => true

/-- The Python object stands for the C buffer `s` over tags. -/
structure Tracks (obj : ℕ → PyBytes × PyObject) (capacity : ℕ) (s : RtpjbufInst)
    (st : PyRtpJBuf) : Prop where
  jb : st.jb = s.relabel (ptrOf obj) s.dropPerror
  size : SizeInv s
  capacity_eq : s.capacity = capacity
  refs : Holds obj st.refs (tagsOf s.head)
  distinct : ((tagsOf s.head).map (ptrOf obj)).Nodup
  length : st.refs.length = capacity

/-- Where the tags go in a call. -/
theorem tags_perm {s' : RtpjbufInst} {call : JBufCall} (hs : jbufStep s call = some (s', r)) :
    tagsOf (rtps r.ready) ++ (tagsOf r.drop ++ tagsOf s'.head) ~
      tagsOf s.head ++ tagsOf (newPacket s call) := by
  have h := (jbufStep_perm hs).map RtpPacket.data
  have hcore : ∀ l : List RtpPacket, (l.map RtpPacket.core).map RtpPacket.data = tagsOf l := by
    intro l
    rw [List.map_map]
    rfl
  rw [hcore, List.map_append, hcore, RjbUdpInR.packets] at h
  have h' : tagsOf (s'.head ++ (rtps r.ready ++ r.drop)) =
      tagsOf s'.head ++ (tagsOf (rtps r.ready) ++ tagsOf r.drop) := by
    simp [tagsOf]
  rw [h'] at h
  rw [← List.append_assoc]
  exact List.perm_append_comm.trans h

theorem firstViolated_code (buf : List UInt8) (h : firstViolated (rules buf) ≠ .ok) :
    (firstViolated (rules buf)).code < 0 := by
  rw [firstViolated] at h ⊢
  cases hf : (rules buf).find? fun r => !r.2 with
  | none =>
    rw [hf] at h
    exact absurd rfl h
  | some rule =>
    have hmem : rule.1 ∈ (rules buf).map Prod.fst :=
      List.mem_map_of_mem (List.mem_of_find?_eq_some hf)
    have hneg : ∀ e ∈ (rules buf).map Prod.fst, e.code < 0 := by
      rw [show (rules buf).map Prod.fst =
        [.ptooshrt, .ihdrver, .ptooshrtxs, .ptooshrtxh, .ptooshrtps, .ips, .ptooshrtp] from rfl]
      decide
    exact hneg rule.1 hmem

/-- The error member tells whether the datagram was rejected. -/
theorem jbufStep_error {s' : RtpjbufInst} {data : ℕ} {buf : List UInt8}
    (hs : jbufStep s (.udpIn data buf) = some (s', r)) :
    (parsed buf = none ∧ r.error < 0 ∧ r.ready = []) ∨ ((parsed buf).isSome ∧ r.error = 0) := by
  obtain ⟨info, hparse, -⟩ := rtpPacketParseRaw_eq buf .zero
  by_cases hok : firstViolated (rules buf) = .ok
  · right
    rw [hok] at hparse
    have hsome := parsed_of_ok hparse
    refine ⟨by rw [hsome]; rfl, ?_⟩
    cases jbufStep_cases hs with
    | rejected e hnone =>
      rw [hsome] at hnone
      cases hnone
    | placed info' _ hp => cases hp <;> rfl
  · left
    refine ⟨parsed_of_error hparse hok, ?_⟩
    rw [jbufStep, rtpjbufUdpIn, hparse] at hs
    dsimp only at hs
    rw [Option.bind_some, if_pos hok, Option.some.injEq, Prod.mk.injEq] at hs
    obtain ⟨-, rfl⟩ := hs
    exact ⟨firstViolated_code buf hok, rfl⟩

/-- A call over data pointers is one over tags. -/
theorem jbufStep_of_relabel {f : ℕ → ℕ} (call : JBufCall) {p : RtpjbufInst × RjbUdpInR}
    (h : jbufStep (s.relabel f s.dropPerror) (call.relabel f) = some p) :
    ∃ s' r, jbufStep s call = some (s', r) ∧ p = (s'.relabel f s'.dropPerror, r.relabel f) := by
  rw [jbufStep_relabel, Option.map_eq_some_iff] at h
  obtain ⟨⟨s', r⟩, hs, rfl⟩ := h
  refine ⟨s', r, hs, ?_⟩
  rw [jbufStep_dropPerror hs]
  rfl

theorem without_eq_self {ptr : ℕ} {ts : List ℕ} (h : ∀ t ∈ ts, ptrOf obj t ≠ ptr) :
    without obj ptr ts = ts :=
  List.filter_eq_self.mpr fun t ht => decide_eq_true (h t ht)

/-- The two lists of a result, one after the other. -/
theorem Holds.processLists (inputBytes inputOpaque : PyObject) {inputPtr : ℕ}
    (hinput : inputPtr ≠ 0) (r : RjbUdpInR) (self : PyRtpJBuf) {rest : List ℕ}
    (h : Holds obj self.refs (without obj inputPtr (tagsOf (rtps r.ready)) ++
      (without obj inputPtr (tagsOf r.drop) ++ rest)))
    (hnd : ((without obj inputPtr (tagsOf (rtps r.ready)) ++
      (without obj inputPtr (tagsOf r.drop) ++ rest)).map (ptrOf obj)).Nodup)
    (hin : ∀ t ∈ tagsOf (rtps r.ready), ptrOf obj t = inputPtr →
      inputBytes = .bytes (obj t).1 ∧ inputOpaque = (obj t).2) :
    ∃ refs', Rtp.processReadyList inputBytes inputOpaque inputPtr self.refs
        (r.relabel (ptrOf obj)).ready = (r.ready.map (wrapOf obj), refs') ∧
      ∀ st' : PyRtpJBuf, ({ self with refs := refs' } : PyRtpJBuf).processDropList inputPtr
          (r.relabel (ptrOf obj)).drop = st' →
        Holds obj st'.refs rest ∧ st'.refs.length = self.refs.length ∧ st'.jb = self.jb := by
  obtain ⟨refs', heq, h1, hlen⟩ := Holds.processReadyList _ h hnd hin
  refine ⟨refs', heq, ?_⟩
  rintro st' rfl
  have hnd' : ((without obj inputPtr (tagsOf r.drop) ++ rest).map (ptrOf obj)).Nodup := by
    rw [List.map_append] at hnd
    exact (List.nodup_append.mp hnd).2.1
  obtain ⟨h2, hlen2, hjb⟩ := Holds.processDropList hinput rest
    (show Holds obj ({ self with refs := refs' } : PyRtpJBuf).refs _ from h1) hnd'
  exact ⟨h2, hlen2.trans hlen, hjb⟩

/-- A call that passes in an object the table does not refer to. -/
theorem Tracks.fresh (h : Tracks obj capacity s st) {n : ℕ}
    (hnew : PyCall.notRetained st (.udpIn (obj n).1 (obj n).2) = true) :
    ∀ t ∈ tagsOf s.head, ptrOf obj t ≠ ptrOf obj n := by
  intro t ht hptr
  have hmem : refOf obj t ∈ st.refs :=
    (List.mem_filter.mp (h.refs.used.mem_iff.mpr (List.mem_map_of_mem ht))).1
  have hne := List.all_eq_true.mp hnew (refOf obj t) hmem
  have haddr : (obj t).1.addr = (obj n).1.addr := by
    unfold ptrOf PyBytes.ptr at hptr
    omega
  rw [Bool.not_eq_true', refOf, Option.any_some, PyObject.isBytesAt, decide_eq_false_iff_not] at hne
  exact hne haddr

/-- What a call leaves is tracked when the table holds what the buffer does. -/
theorem Tracks.of_holds {s' : RtpjbufInst} {call : JBufCall} (h : Tracks obj capacity s st)
    (hs : jbufStep s call = some (s', r)) (hrefs : Holds obj st'.refs (tagsOf s'.head))
    (hnd : ((tagsOf s'.head).map (ptrOf obj)).Nodup) (hlen : st'.refs.length = st.refs.length)
    (hjb : st'.jb = s'.relabel (ptrOf obj) s'.dropPerror) : Tracks obj capacity s' st' where
  jb := hjb
  size := h.size.step hs
  capacity_eq := (jbufStep_capacity hs).trans h.capacity_eq
  refs := hrefs
  distinct := hnd
  length := hlen.trans h.length

theorem nodup_held {R D H T : List ℕ} (hperm : R ++ (D ++ H) ~ T)
    (hnd : (T.map (ptrOf obj)).Nodup) : (H.map (ptrOf obj)).Nodup := by
  have h := (hperm.map (ptrOf obj)).nodup_iff.mpr hnd
  rw [List.map_append, List.map_append, List.nodup_append, List.nodup_append] at h
  exact h.2.1.2.1

theorem Tracks.flush (h : Tracks obj capacity s st) (hstep : pyStep st .flush = some (st', res)) :
    ∃ s' r, jbufStep s .flush = some (s', r) ∧ Tracks obj capacity s' st' ∧
      res = resultOf obj r := by
  rw [pyStep, h.jb, Option.map_eq_some_iff] at hstep
  obtain ⟨p, hp, heq⟩ := hstep
  obtain ⟨s', r, hs, rfl⟩ := jbufStep_of_relabel .flush hp
  have hperm := tags_perm hs
  rw [show tagsOf (newPacket s .flush) = [] from rfl, List.append_nil] at hperm
  -- no data pointer is `NO_INPUT_PTR`
  have hall : ∀ ts : List ℕ, without obj noInputPtr ts = ts :=
    fun ts => without_eq_self fun t _ => ptrOf_ne (show noInputPtr < 32 by decide)
  obtain ⟨refs', hready, hdrop⟩ := Holds.processLists .pyNone .pyNone
    (show noInputPtr ≠ 0 by decide) r
    { st with jb := s'.relabel (ptrOf obj) s'.dropPerror }
    (by rw [hall, hall]; exact h.refs.perm hperm.symm)
    (by rw [hall, hall]; exact (hperm.map _).nodup_iff.mpr h.distinct)
    fun t _ ht => absurd ht (ptrOf_ne (by decide))
  have herror : r.error = 0 := by cases jbufStep_cases hs <;> rfl
  dsimp only at heq hready
  rw [hready, Prod.mk.injEq] at heq
  obtain ⟨h1, h2, h3⟩ := hdrop st' heq.1
  refine ⟨s', r, hs, h.of_holds hs h1 (nodup_held hperm h.distinct) h2 h3, ?_⟩
  rw [← heq.2, resultOf, if_neg (not_not.mpr herror)]

/-- A datagram that the parser rejects. -/
theorem Tracks.rejected {s' : RtpjbufInst} {call : JBufCall} {ptr : ℕ} (hptr : ptr ≠ 0)
    (h : Tracks obj capacity s st) (hs : jbufStep s call = some (s', r))
    (hfresh : ∀ t ∈ tagsOf s.head, ptrOf obj t ≠ ptr) (hready : r.ready = [])
    (hnone : newPacket s call = []) :
    Tracks obj capacity s' (({ st with jb := s'.relabel (ptrOf obj) s'.dropPerror } :
      PyRtpJBuf).processDropList ptr (r.relabel (ptrOf obj)).drop) := by
  have hperm := tags_perm hs
  rw [hready, hnone, show tagsOf (rtps []) = [] from rfl, List.nil_append,
    show tagsOf [] = [] from rfl, List.append_nil] at hperm
  have hdrop : without obj ptr (tagsOf r.drop) = tagsOf r.drop :=
    without_eq_self fun t ht => hfresh t (hperm.mem_iff.mp (List.mem_append_left _ ht))
  have hnd := (hperm.map (ptrOf obj)).nodup_iff.mpr h.distinct
  obtain ⟨h1, h2, h3⟩ := @Holds.processDropList obj ptr hptr (tagsOf s'.head) r.drop
    { st with jb := s'.relabel (ptrOf obj) s'.dropPerror }
    (by rw [hdrop]; exact h.refs.perm hperm.symm) (by rw [hdrop]; exact hnd)
  refine h.of_holds hs h1 ?_ h2 h3
  rw [List.map_append] at hnd
  exact (List.nodup_append.mp hnd).2.1

/-- Among the tags of an accepted datagram's call, its pointer is that of its
own tag only. -/
theorem Tracks.eq_of_ptrOf {n : ℕ} {R D H : List ℕ}
    (hfresh : ∀ t ∈ tagsOf s.head, ptrOf obj t ≠ ptrOf obj n)
    (hperm : R ++ (D ++ H) ~ tagsOf s.head ++ [n]) :
    ∀ t ∈ R ++ (D ++ H), ptrOf obj t = ptrOf obj n → t = n := by
  intro t ht hptr
  rcases List.mem_append.mp (hperm.mem_iff.mp ht) with ht | ht
  · exact absurd hptr (hfresh t ht)
  · exact List.mem_singleton.mp ht

/-- The new datagram is handed out at once: the table holds what is handed out
beside it and what stays. -/
theorem perm_of_mem {n : ℕ} {R D H T : List ℕ} (hperm : R ++ (D ++ H) ~ T ++ [n])
    (hfresh : ∀ t ∈ T, ptrOf obj t ≠ ptrOf obj n)
    (hnd : ((R ++ (D ++ H)).map (ptrOf obj)).Nodup) (hmem : n ∈ R ∨ n ∈ D) :
    without obj (ptrOf obj n) R ++ (without obj (ptrOf obj n) D ++ H) ~ T := by
  have hH : without obj (ptrOf obj n) H = H := by
    refine without_eq_self fun t ht hptr => ?_
    rw [← List.append_assoc, List.map_append, List.nodup_append] at hnd
    exact hnd.2.2 _ (List.mem_map_of_mem (List.mem_append.mpr hmem)) _ (List.mem_map_of_mem ht)
      hptr.symm
  have hT : without obj (ptrOf obj n) (T ++ [n]) = T := by
    rw [without, List.filter_append, ← without, without_eq_self hfresh,
      List.filter_cons_of_neg (by simp), List.filter_nil, List.append_nil]
  have h := hperm.filter fun t => ptrOf obj t ≠ ptrOf obj n
  rw [← without, ← without, hT] at h
  rwa [without, List.filter_append, List.filter_append, ← without, ← without, ← without, hH] at h

/-- The table before the lists are gone through: the datagram is put into it when neither
list has it. -/
theorem Tracks.stored {n : ℕ} {H : List ℕ} (hcap : 2 ≤ capacity) (h : Tracks obj capacity s st)
    (hfresh : ∀ t ∈ tagsOf s.head, ptrOf obj t ≠ ptrOf obj n)
    (hperm : tagsOf (rtps r.ready) ++ (tagsOf r.drop ++ H) ~ tagsOf s.head ++ [n])
    (hnd : ((tagsOf (rtps r.ready) ++ (tagsOf r.drop ++ H)).map (ptrOf obj)).Nodup) :
    ∃ refs₁, (if !(listHasDataPtr (rtps (r.relabel (ptrOf obj)).ready) (obj n).1.ptr ||
        listHasDataPtr (r.relabel (ptrOf obj)).drop (obj n).1.ptr) then
        storeDataRef (.bytes (obj n).1) (obj n).2 (obj n).1.ptr st.refs else some st.refs) = some refs₁ ∧
      Holds obj refs₁ (without obj (ptrOf obj n) (tagsOf (rtps r.ready)) ++
        (without obj (ptrOf obj n) (tagsOf r.drop) ++ H)) ∧
      refs₁.length = st.refs.length := by
  have hinj := Tracks.eq_of_ptrOf hfresh hperm
  have hready : listHasDataPtr (rtps (r.relabel (ptrOf obj)).ready) (obj n).1.ptr = true ↔
      n ∈ tagsOf (rtps r.ready) := by
    rw [RjbUdpInR.relabel, rtps_relabel]
    exact listHasDataPtr_relabel fun t ht => hinj t (List.mem_append_left _ ht)
  have hdrop : listHasDataPtr (r.relabel (ptrOf obj)).drop (obj n).1.ptr = true ↔
      n ∈ tagsOf r.drop :=
    listHasDataPtr_relabel fun t ht =>
      hinj t (List.mem_append_right _ (List.mem_append_left _ ht))
  have hretained : (!(listHasDataPtr (rtps (r.relabel (ptrOf obj)).ready) (obj n).1.ptr ||
      listHasDataPtr (r.relabel (ptrOf obj)).drop (obj n).1.ptr)) = true ↔
      ¬ (n ∈ tagsOf (rtps r.ready) ∨ n ∈ tagsOf r.drop) := by
    rw [Bool.not_eq_true', ← Bool.not_eq_true, Bool.or_eq_true, hready, hdrop]
  by_cases hmem : n ∈ tagsOf (rtps r.ready) ∨ n ∈ tagsOf r.drop
  · rw [if_neg fun hret => hretained.mp hret hmem]
    exact ⟨st.refs, rfl, h.refs.perm (perm_of_mem hperm hfresh hnd hmem).symm, rfl⟩
  · rw [if_pos (hretained.mpr hmem)]
    rw [not_or] at hmem
    -- the buffer had room for another frame, so the table has
    have hroom : (tagsOf s.head).length < st.refs.length := by
      have hbound := h.size.bound
      rw [h.capacity_eq, effCapacity, if_neg (by omega)] at hbound
      rw [tagsOf, List.length_map, h.length]
      omega
    obtain ⟨refs₁, heq, h1, hlen⟩ := h.refs.store hroom n
    refine ⟨refs₁, heq, ?_, hlen⟩
    rw [without_eq_self fun t ht hptr => hmem.1 (hinj t (List.mem_append_left _ ht) hptr ▸ ht),
      without_eq_self fun t ht hptr => hmem.2
        (hinj t (List.mem_append_right _ (List.mem_append_left _ ht)) hptr ▸ ht)]
    exact h1.perm ((List.perm_append_singleton n _).symm.trans hperm.symm)

/-- A datagram that the parser accepts. -/
theorem Tracks.accepted {s' : RtpjbufInst} {n : ℕ} (hcap : 2 ≤ capacity)
    (h : Tracks obj capacity s st)
    (hs : jbufStep s (.udpIn n (obj n).1.bytes) = some (s', r))
    (hfresh : ∀ t ∈ tagsOf s.head, ptrOf obj t ≠ ptrOf obj n)
    (hsome : (parsed (obj n).1.bytes).isSome) (herror : r.error = 0) :
    ∃ st', ({ st with jb := s'.relabel (ptrOf obj) s'.dropPerror } : PyRtpJBuf).udpInDone (obj n).1
        (obj n).2 (r.relabel (ptrOf obj)) = (st', resultOf obj r) ∧ Tracks obj capacity s' st' := by
  have hperm := tags_perm hs
  obtain ⟨info, hinfo⟩ := Option.isSome_iff_exists.mp hsome
  rw [newPacket, hinfo, show ∀ i : RtpInfo, tagsOf ((some i).toList.map fun info =>
    (⟨info, (assign (purgeStaleTail s).2 info.seq).2, 0, n⟩ : RtpPacket)) = [n] from
    fun _ => rfl] at hperm
  have hinj := Tracks.eq_of_ptrOf hfresh hperm
  have hnd' : ((tagsOf s.head ++ [n]).map (ptrOf obj)).Nodup := by
    rw [List.map_append, List.map_singleton, List.nodup_append]
    refine ⟨h.distinct, by simp, ?_⟩
    rintro a ha b hb rfl
    obtain ⟨t, ht, hta⟩ := List.mem_map.mp ha
    exact hfresh t ht (hta.trans (List.mem_singleton.mp hb))
  have hnd := (hperm.map (ptrOf obj)).nodup_iff.mpr hnd'
  have hin : ∀ t ∈ tagsOf (rtps r.ready), ptrOf obj t = ptrOf obj n →
      PyObject.bytes (obj n).1 = .bytes (obj t).1 ∧ (obj n).2 = (obj t).2 := by
    intro t ht hptr
    rw [hinj t (List.mem_append_left _ ht) hptr]
    exact ⟨rfl, rfl⟩
  obtain ⟨refs₁, hstore, h1, hlen1⟩ := h.stored hcap hfresh hperm hnd
  have hsub : (((without obj (ptrOf obj n) (tagsOf (rtps r.ready)) ++
      (without obj (ptrOf obj n) (tagsOf r.drop) ++ tagsOf s'.head))).map (ptrOf obj)).Nodup :=
    hnd.sublist ((List.filter_sublist.append
      (List.filter_sublist.append (List.Sublist.refl _))).map _)
  obtain ⟨refs', heq, hdone⟩ := Holds.processLists (.bytes (obj n).1) (obj n).2
    (show ptrOf obj n ≠ 0 from ptrOf_ne (by decide)) r
    { st with jb := s'.relabel (ptrOf obj) s'.dropPerror, refs := refs₁ } h1 hsub hin
  obtain ⟨h2, h3, h4⟩ := hdone _ rfl
  refine ⟨_, ?_, h.of_holds hs h2 ?_ (h3.trans hlen1) h4⟩
  · rw [PyRtpJBuf.udpInDone, if_neg (show ¬ (r.relabel (ptrOf obj)).error ≠ 0 from
      not_not.mpr herror)]
    dsimp only
    rw [hstore]
    dsimp only
    rw [show (obj n).1.ptr = ptrOf obj n from rfl, heq, resultOf, if_neg (not_not.mpr herror)]
  · rw [List.map_append, List.map_append, List.nodup_append, List.nodup_append] at hnd
    exact hnd.2.1.2.1

/-- **One call**: Python and the C buffer over tags make the same step. -/
theorem Tracks.step {n : ℕ} {call : PyCall} (hcap : 2 ≤ capacity) (h : Tracks obj capacity s st)
    (hargs : ∀ input inputOpaque, call = .udpIn input inputOpaque → obj n = (input, inputOpaque))
    (hnew : call.notRetained st = true) (hstep : pyStep st call = some (st', res)) :
    ∃ s' r, jbufStep s (call.tagged n) = some (s', r) ∧ Tracks obj capacity s' st' ∧
      res = resultOf obj r := by
  cases call with
  | flush => exact h.flush hstep
  | udpIn input inputOpaque =>
    have hobj := hargs input inputOpaque rfl
    obtain ⟨rfl, rfl⟩ : input = (obj n).1 ∧ inputOpaque = (obj n).2 := by rw [hobj]; exact ⟨rfl, rfl⟩
    have hfresh := h.fresh hnew
    rw [pyStep, h.jb, Option.map_eq_some_iff] at hstep
    obtain ⟨p, hp, heq⟩ := hstep
    obtain ⟨s', r, hs, rfl⟩ := jbufStep_of_relabel (.udpIn n (obj n).1.bytes) hp
    refine ⟨s', r, hs, ?_⟩
    dsimp only at heq
    rcases jbufStep_error hs with ⟨hnone, herror, hready⟩ | ⟨hsome, herror⟩
    · have hrej := h.rejected (show ptrOf obj n ≠ 0 from ptrOf_ne (by decide)) hs hfresh hready
        (by rw [newPacket, hnone]; rfl)
      have hlt : (r.relabel (ptrOf obj)).error < RtpParserErr.ok.code :=
        herror.trans (by decide)
      rw [PyRtpJBuf.udpInDone, if_pos (show (r.relabel (ptrOf obj)).error ≠ 0 from herror.ne),
        if_pos hlt, Prod.mk.injEq] at heq
      refine ⟨heq.1 ▸ hrej, ?_⟩
      rw [resultOf, if_pos herror.ne, ← heq.2]
      rfl
    · obtain ⟨st₁, heq₁, htr⟩ := h.accepted hcap hs hfresh hsome herror
      rw [heq₁, Prod.mk.injEq] at heq
      exact ⟨heq.1 ▸ htr, heq.2.symm⟩

end steps

/-! ### Runs -/

/-- The arguments of the `i`-th call. -/
def argsAt (calls : List PyCall) (i : ℕ) : PyBytes × PyObject :=
  match calls[i]? with
  | some (.udpIn input inputOpaque) => (input, inputOpaque)
  | _ => (⟨0, []⟩, .pyNone)

/-- The calls of the C library, each datagram kept at its index. -/
def taggedCalls (calls : List PyCall) : List JBufCall := calls.zipIdx.map fun p => p.1.tagged p.2

theorem taggedCalls_concat (calls : List PyCall) (call : PyCall) :
    taggedCalls (calls ++ [call]) = taggedCalls calls ++ [call.tagged calls.length] := by
  rw [taggedCalls, List.zipIdx_append, List.map_append, taggedCalls]
  simp

/-- An accepted datagram is the one passed with the call of its tag. -/
theorem parsed_of_accepted {calls : List PyCall} {i : ℕ} {info : RtpInfo}
    (h : (i, info) ∈ (taggedCalls calls).filterMap JBufCall.accepted) :
    (∃ input inputOpaque, calls[i]? = some (.udpIn input inputOpaque)) ∧
      parsed (argsAt calls i).1.bytes = some info := by
  obtain ⟨jcall, hmem, hacc⟩ := List.mem_filterMap.mp h
  obtain ⟨⟨call, j⟩, hidx, rfl⟩ := List.mem_map.mp hmem
  have hget : calls[j]? = some call := List.mem_zipIdx_iff_getElem?.mp hidx
  cases call with
  | flush => cases hacc
  | udpIn input inputOpaque =>
    obtain ⟨info', hparsed, heq⟩ := Option.map_eq_some_iff.mp hacc
    rw [Prod.mk.injEq] at heq
    obtain ⟨rfl, rfl⟩ := heq
    exact ⟨⟨input, inputOpaque, hget⟩, by rw [argsAt, hget]; exact hparsed⟩

theorem tracks_of_run {capacity : ℕ} (htwo : 2 ≤ capacity) (hcap : capacity < 2 ^ 32)
    {calls : List PyCall} {st : PyRtpJBuf} {results : List PyResult}
    (hnew : Always pyStep (fun st call => call.notRetained st = true) (pyRtpJBufInit capacity) calls)
    (h : run pyStep (pyRtpJBufInit capacity) calls = some (st, results)) :
    ∃ s outs, run jbufStep (rtpjbufCtor capacity) (taggedCalls calls) = some (s, outs) ∧
      Tracks (argsAt calls) capacity s st ∧ results = outs.map (resultOf (argsAt calls)) := by
  refine run_induction (fun made os st => made <+: calls →
    ∃ s outs, run jbufStep (rtpjbufCtor capacity) (taggedCalls made) = some (s, outs) ∧
      Tracks (argsAt calls) capacity s st ∧ os = outs.map (resultOf (argsAt calls)))
    ?_ ?_ hnew h (List.prefix_refl calls)
  · intro _
    exact ⟨rtpjbufCtor capacity, [], rfl,
      ⟨rfl, sizeInv_ctor hcap, rfl, holds_replicate capacity, List.nodup_nil,
        List.length_replicate⟩, rfl⟩
  · intro made os st call st' res ih hcall hstep hpre
    obtain ⟨s, outs, hrun, htr, rfl⟩ := ih ((List.prefix_append made [call]).trans hpre)
    have hget : calls[made.length]? = some call := by
      obtain ⟨rest, rfl⟩ := hpre
      simp
    have hargs : ∀ input inputOpaque, call = .udpIn input inputOpaque →
        argsAt calls made.length = (input, inputOpaque) := by
      rintro input inputOpaque rfl
      rw [argsAt, hget]
    obtain ⟨s', r, hs, htr', rfl⟩ := htr.step htwo hargs hcall hstep
    refine ⟨s', outs ++ [r], ?_, htr', by rw [List.map_append]; rfl⟩
    rw [taggedCalls_concat]
    exact run_concat_eq_some.mpr ⟨s, outs, r, hrun, hs, rfl⟩

/-- **The table keeps the right references.**  `s` and `outs` are what the C
library comes to when the datagram of every call is kept at the index of the
call, so that the data pointer of a packet tells which call brought it.  The
buffer of the object is that one with the pointers of the `bytes` objects, the
used entries of `refs` are, one for one, those of the held frames, the table is
never exhausted, and every wrapper carries the objects of its own call with the
payload that the parser found. -/
theorem pyRun_refs {capacity : ℕ} (htwo : 2 ≤ capacity) (hcap : capacity < 2 ^ 32)
    {calls : List PyCall} {st : PyRtpJBuf} {results : List PyResult}
    (hnew : Always pyStep (fun st call => call.notRetained st = true) (pyRtpJBufInit capacity) calls)
    (h : run pyStep (pyRtpJBufInit capacity) calls = some (st, results)) :
    ∃ s outs, run jbufStep (rtpjbufCtor capacity) (taggedCalls calls) = some (s, outs) ∧
      st.jb = s.relabel (ptrOf (argsAt calls)) s.dropPerror ∧
      st.refs.filter (fun ref => ref.data.isSome) ~
        s.head.map (fun p => refOf (argsAt calls) p.data) ∧
      PyResult.exhausted ∉ results ∧
      results = outs.map (resultOf (argsAt calls)) ∧
      ∀ p ∈ places s outs,
        (∃ input inputOpaque, calls[p.data]? = some (.udpIn input inputOpaque)) ∧
          parsed (argsAt calls p.data).1.bytes = some p.info := by
  obtain ⟨s, outs, hrun, htr, rfl⟩ := tracks_of_run htwo hcap hnew h
  refine ⟨s, outs, hrun, htr.jb, ?_, ?_, rfl, ?_⟩
  · have hused := htr.refs.used
    rwa [tagsOf, List.map_map] at hused
  · intro hmem
    obtain ⟨r, -, hr⟩ := List.mem_map.mp hmem
    rw [resultOf] at hr
    split at hr <;> cases hr
  · intro p hp
    have hacc : p.datagram ∈ (taggedCalls calls).filterMap JBufCall.accepted :=
      (ledger_of_run hcap hrun).places.mem_iff.mp (List.mem_map_of_mem hp)
    exact parsed_of_accepted hacc

/-- The object of a delivered datagram may be passed in again. -/
theorem pyRun_refs_held :
    ∃ st results, ∃ s : RtpjbufInst, run pyStep (pyRtpJBufInit 3)
        [.udpIn ⟨1000, datagram 0⟩ (.other 10), .udpIn ⟨2000, datagram 2⟩ (.other 20),
          .udpIn ⟨1000, datagram 5⟩ (.other 30)] = some (st, results) ∧
      PyResult.exhausted ∉ results ∧
      st.refs.filter (fun ref => ref.data.isSome) ~ s.head.map (fun p => refOf (argsAt
        [.udpIn ⟨1000, datagram 0⟩ (.other 10), .udpIn ⟨2000, datagram 2⟩ (.other 20),
          .udpIn ⟨1000, datagram 5⟩ (.other 30)]) p.data) ∧
      st.jb.head.length = 2 ∧ s.head.length = 2 := by
  have hrun : (run pyStep (pyRtpJBufInit 3)
        [.udpIn ⟨1000, datagram 0⟩ (.other 10), .udpIn ⟨2000, datagram 2⟩ (.other 20),
          .udpIn ⟨1000, datagram 5⟩ (.other 30)]).isSome := by decide
  have hsome := (Option.some_get hrun).symm
  obtain ⟨s, outs, -, hjb, hrefs, hroom, -⟩ := pyRun_refs (by decide) (by decide) (by decide) hsome
  have hlen : (((run pyStep (pyRtpJBufInit 3)
        [.udpIn ⟨1000, datagram 0⟩ (.other 10), .udpIn ⟨2000, datagram 2⟩ (.other 20),
          .udpIn ⟨1000, datagram 5⟩ (.other 30)]).get (by decide)).1).jb.head.length = 2 := by
    decide
  refine ⟨_, _, s, hsome, hroom, hrefs, hlen, ?_⟩
  have hhead := congrArg (fun jb : RtpjbufInst => jb.head.length) hjb
  exact (List.length_map _).symm.trans (hhead.symm.trans hlen)

end Rtp
