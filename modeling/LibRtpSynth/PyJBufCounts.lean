/-
The references of `RtpJBuf` (`python/RtpJBuf_mod.c`).

`PyJBuf` has the objects that the table and the wrappers refer to.  Here each
`Py_INCREF` and `Py_DECREF` counts, of the object passed in, of the table, of the wrappers
and of everybody else, and the object and its wrappers are deallocated at any time.  The
`bytes` object of a payload and the content of a wrapper are new, belong to the wrapper
alone and are not counted.

* `countedRun_balance` — in every run the count of an object is the number of references
  that the table, the wrappers and the others have, and no reference is released twice.
-/
import LibRtpSynth.PyJBufOrphans
import LibRtpSynth.RefCounts

open CWords Runs RefCounts

namespace Rtp

/-! ### References taken and released -/

/-- `fetch_cached_ref`. -/
def fetchCachedCounts (ptr : ℕ) (refs : List PyRtpJBufRef) (c : Counts PyObject) :
    Counts PyObject :=
  if refs.any fun ref => ref.ptr = ptr then c else increfs c [.pyNone, .pyNone]

/-- `fetch_ready_ref`. -/
def fetchReadyCounts (refs : List PyRtpJBufRef) (ptr : ℕ) (inputBytes inputOpaque : PyObject)
    (inputPtr : ℕ) (c : Counts PyObject) : Counts PyObject :=
  if ptr = inputPtr then increfs c [inputBytes, inputOpaque] else fetchCachedCounts ptr refs c

/-- `store_data_ref`. -/
def storeCounts (inputBytes inputOpaque : PyObject) (refs : List PyRtpJBufRef)
    (c : Counts PyObject) : Counts PyObject :=
  if refs.any fun ref => ref.data = none then increfs c [inputBytes, inputOpaque] else c

/-- `PyFrameWrapper_NewSteal`, which puts `None` for each member that is `NULL`. -/
def newStealCounts (members : List (Option PyObject)) (c : Counts PyObject) : Counts PyObject :=
  increfs c ((members.filter fun member => member = none).map fun _ => .pyNone)

/-- `process_ready_list`. -/
def readyCounts (inputBytes inputOpaque : PyObject) (inputPtr : ℕ) :
    List PyRtpJBufRef → List RtpFrame → Counts PyObject → Counts PyObject
  | _, [], c => c
  | refs, .rtp p :: fp, c =>
    let ref := fetchReadyRef refs p.data inputBytes inputOpaque inputPtr
    let c := fetchReadyCounts refs p.data inputBytes inputOpaque inputPtr c
    readyCounts inputBytes inputOpaque inputPtr ref.2 fp (newStealCounts [ref.1.1, ref.1.2] c)
  | refs, .ers _ :: fp, c =>
    readyCounts inputBytes inputOpaque inputPtr refs fp (newStealCounts [none, none, none] c)

/-- `process_drop_list`. -/
def dropCounts (inputPtr : ℕ) :
    List PyRtpJBufRef → List RtpPacket → Counts PyObject → Option (Counts PyObject)
  | _, [], c => some c
  | refs, p :: fp, c =>
    if inputPtr = 0 ∨ p.data ≠ inputPtr then
      let ref := fetchCachedRef p.data refs
      (decrefs (fetchCachedCounts p.data refs c) (ref.1.1.toList ++ ref.1.2.toList)).bind fun c =>
        dropCounts inputPtr ref.2 fp c
    else dropCounts inputPtr refs fp c

/-- `PyRtpJBuf_udp_in` after the call of `rtpjbuf_udp_in`, with the reference of
`ensure_bytes`. -/
def PyRtpJBuf.udpInCounts (self : PyRtpJBuf) (input : PyBytes) (inputOpaque : PyObject)
    (ruir : RjbUdpInR) (c : Counts PyObject) : Option (Counts PyObject) :=
  if ruir.error ≠ 0 then
    (dropCounts input.ptr self.refs ruir.drop c).bind fun c => decref c (.bytes input)
  else
    let retained :=
      !(listHasDataPtr (rtps ruir.ready) input.ptr || listHasDataPtr ruir.drop input.ptr)
    match if retained then storeDataRef (.bytes input) inputOpaque input.ptr self.refs
      else some self.refs with
    | none =>
      (dropCounts input.ptr self.refs (rtps ruir.ready) c).bind fun c =>
        (dropCounts input.ptr (self.processDropList input.ptr (rtps ruir.ready)).refs
          ruir.drop c).bind fun c => decref c (.bytes input)
    | some refs =>
      let c := if retained then storeCounts (.bytes input) inputOpaque self.refs c else c
      let c := readyCounts (.bytes input) inputOpaque input.ptr refs ruir.ready c
      (dropCounts input.ptr
        (processReadyList (.bytes input) inputOpaque input.ptr refs ruir.ready).2
        ruir.drop c).bind fun c => decref c (.bytes input)

/-- What a call does to the counts. -/
def callCounts (self : PyRtpJBuf) (c : Counts PyObject) : PyCall → Option (Counts PyObject)
  | .udpIn input inputOpaque =>
    (rtpjbufUdpIn self.jb input.ptr input.bytes).bind fun p =>
      ({ self with jb := p.1 } : PyRtpJBuf).udpInCounts input inputOpaque p.2
        (incref c (.bytes input))
  | .flush =>
    (rtpjbufFlush self.jb).bind fun p =>
      dropCounts noInputPtr (processReadyList .pyNone .pyNone noInputPtr self.refs p.2.ready).2
        p.2.drop (readyCounts .pyNone .pyNone noInputPtr self.refs p.2.ready c)

/-- The loop of `PyRtpJBuf_dealloc`. -/
def deallocLoop : ℕ → PyRtpJBuf → Counts PyObject → Option (PyRtpJBuf × Counts PyObject)
  | 0, _, _ => none
  | rounds + 1, self, c =>
    (rtpjbufFlush self.jb).bind fun p =>
      let self : PyRtpJBuf := { self with jb := p.1 }
      if p.2.ready = [] ∧ p.2.drop = [] then some (self, c)
      else
        (dropCounts noInputPtr self.refs (rtps p.2.ready) c).bind fun c =>
          let self := self.processDropList noInputPtr (rtps p.2.ready)
          (dropCounts noInputPtr self.refs p.2.drop c).bind fun c =>
            deallocLoop rounds (self.processDropList noInputPtr p.2.drop) c

/-- The references of the table. -/
def held (refs : List PyRtpJBufRef) : List PyObject :=
  refs.flatMap fun ref => ref.data.toList ++ ref.opaqueObj.toList

/-- `PyRtpJBuf_dealloc`.  The buffer is empty after the first flush. -/
def deallocCounts (self : PyRtpJBuf) (c : Counts PyObject) : Option (Counts PyObject) :=
  (deallocLoop 2 self c).bind fun p => decrefs p.2 (held p.1.refs)

/-- The members of a wrapper that are counted: `data` and `opaque`, and `rtp_data` where it
is `None`. -/
def PyFrameWrapper.members : PyFrameWrapper → List PyObject
  | .rtp _ data opaqueObj _ => [data.getD .pyNone, opaqueObj.getD .pyNone]
  | .ers _ => [.pyNone, .pyNone, .pyNone]

/-! ### The object, its wrappers and the others -/

/-- The object until it is deallocated, the wrappers that are alive, the references of
everybody else, and the counts. -/
structure CountedJBuf where
  self : Option PyRtpJBuf
  wrappers : List PyFrameWrapper
  own : Counts PyObject
  counts : Counts PyObject

/-- Behind `PyRtpJBuf_init`. -/
def countedStart (capacity : ℕ) (own : Counts PyObject) : CountedJBuf :=
  ⟨some (pyRtpJBufInit capacity), [], own, own⟩

/-- A call; the deallocation of a wrapper or of the object; or somebody else takes or
releases a reference. -/
inductive CountedEvent
  | call (call : PyCall)
  | dropWrapper (i : ℕ)
  | dealloc
  | take (obj : PyObject)
  | release (obj : PyObject)
  deriving DecidableEq, Repr

/-- The wrappers that a call returns. -/
def PyResult.wrappers : PyResult → List PyFrameWrapper
  | .ready wrappers => wrappers
  | _ => []

/-- One step; `none` when the C library aborts, or a reference is released that there is
not. -/
def countedStep (s : CountedJBuf) : CountedEvent → Option (CountedJBuf × Option PyResult)
  | .call call =>
    s.self.bind fun self =>
      (pyStep self call).bind fun p =>
        (callCounts self s.counts call).map fun c =>
          ({ s with self := some p.1, wrappers := s.wrappers ++ p.2.wrappers, counts := c }, some p.2)
  | .dropWrapper i =>
    s.wrappers[i]?.bind fun wrapper =>
      (decrefs s.counts wrapper.members).map fun c =>
        ({ s with wrappers := s.wrappers.eraseIdx i, counts := c }, none)
  | .dealloc =>
    s.self.bind fun self =>
      (deallocCounts self s.counts).map fun c => ({ s with self := none, counts := c }, none)
  | .take obj => some ({ s with own := incref s.own obj, counts := incref s.counts obj }, none)
  | .release obj =>
    (decref s.own obj).bind fun own =>
      (decref s.counts obj).map fun c => ({ s with own := own, counts := c }, none)

/-! ### What the functions do to the counts -/

section functions

variable {refs refs' : List PyRtpJBufRef} {ptr inputPtr : ℕ} {inputBytes inputOpaque : PyObject}
  {c c' : Counts PyObject}

theorem held_cons (ref : PyRtpJBufRef) (refs : List PyRtpJBufRef) :
    held (ref :: refs) = (ref.data.toList ++ ref.opaqueObj.toList) ++ held refs := rfl

/-- The references of an entry go to whoever has fetched it. -/
theorem fetchCachedCounts_apply (ptr : ℕ) (refs : List PyRtpJBufRef) (c : Counts PyObject)
    (x : PyObject) :
    fetchCachedCounts ptr refs c x + (held refs).count x =
      c x + (held (fetchCachedRef ptr refs).2).count x +
        ((fetchCachedRef ptr refs).1.1.toList ++ (fetchCachedRef ptr refs).1.2.toList).count x := by
  induction refs with
  | nil => exact increfs_apply c _ x
  | cons ref refs ih =>
    rw [fetchCachedRef, fetchCachedCounts, List.any_cons]
    by_cases hptr : ref.ptr = ptr
    · rw [if_pos hptr, if_pos (by simp [hptr]), held_cons, held_cons, List.count_append]
      simp only [PyRtpJBufRef.empty, Option.toList_none, List.append_nil, List.nil_append]
      omega
    · have hrest : fetchCachedCounts ptr refs c =
          if (decide (ref.ptr = ptr) || refs.any fun ref => decide (ref.ptr = ptr)) = true then c
          else increfs c [.pyNone, .pyNone] := by
        rw [fetchCachedCounts]
        simp [hptr]
      rw [if_neg hptr, ← hrest]
      simp only [held_cons, List.count_append] at ih ⊢
      omega

theorem fetchReadyCounts_apply (refs : List PyRtpJBufRef) (ptr : ℕ)
    (inputBytes inputOpaque : PyObject) (inputPtr : ℕ) (c : Counts PyObject) (x : PyObject) :
    fetchReadyCounts refs ptr inputBytes inputOpaque inputPtr c x + (held refs).count x =
      c x + (held (fetchReadyRef refs ptr inputBytes inputOpaque inputPtr).2).count x +
        ((fetchReadyRef refs ptr inputBytes inputOpaque inputPtr).1.1.toList ++
          (fetchReadyRef refs ptr inputBytes inputOpaque inputPtr).1.2.toList).count x := by
  rw [fetchReadyCounts, fetchReadyRef]
  by_cases hptr : ptr = inputPtr
  · rw [if_pos hptr, if_pos hptr, increfs_apply]
    simp only [Option.toList_some, List.singleton_append]
    omega
  · rw [if_neg hptr, if_neg hptr]
    exact fetchCachedCounts_apply ptr refs c x

/-- A wrapper has the references that it is given, and those to `None` that it takes. -/
theorem newStealCounts_apply (members : List (Option PyObject)) (c : Counts PyObject)
    (x : PyObject) :
    newStealCounts members c x + (members.flatMap Option.toList).count x =
      c x + (members.map fun member => member.getD .pyNone).count x := by
  rw [newStealCounts, increfs_apply, Nat.add_assoc, Nat.add_left_cancel_iff]
  induction members with
  | nil => rfl
  | cons member members ih =>
    cases member with
    | none =>
      simp only [decide_true, List.filter_cons_of_pos, List.map_cons, List.flatMap_cons,
        Option.toList_none, List.nil_append, Option.getD_none, List.count_cons]
      omega
    | some obj =>
      simp only [reduceCtorEq, decide_false, Bool.false_eq_true, not_false_eq_true,
        List.filter_cons_of_neg, List.map_cons, List.flatMap_cons, Option.toList_some,
        List.singleton_append, Option.getD_some, List.count_cons]
      omega

/-- The wrappers of a ready list have the references of the entries fetched for them. -/
theorem readyCounts_apply (inputBytes inputOpaque : PyObject) (inputPtr : ℕ) (x : PyObject) :
    ∀ (ready : List RtpFrame) (refs : List PyRtpJBufRef) (c : Counts PyObject),
      readyCounts inputBytes inputOpaque inputPtr refs ready c x + (held refs).count x =
        c x + (held (processReadyList inputBytes inputOpaque inputPtr refs ready).2).count x +
          ((processReadyList inputBytes inputOpaque inputPtr refs ready).1.flatMap
            PyFrameWrapper.members).count x := by
  intro ready
  induction ready with
  | nil => exact fun refs c => rfl
  | cons fp ready ih =>
    intro refs c
    cases fp with
    | rtp p =>
      rw [readyCounts, processReadyList]
      dsimp only
      generalize hf : fetchReadyRef refs p.data inputBytes inputOpaque inputPtr = f
      have hfetch := fetchReadyCounts_apply refs p.data inputBytes inputOpaque inputPtr c x
      have hnew := newStealCounts_apply [f.1.1, f.1.2]
        (fetchReadyCounts refs p.data inputBytes inputOpaque inputPtr c) x
      have hrest := ih f.2 (newStealCounts [f.1.1, f.1.2]
        (fetchReadyCounts refs p.data inputBytes inputOpaque inputPtr c))
      rw [hf] at hfetch
      simp only [List.flatMap_cons, List.flatMap_nil, List.append_nil, List.map_cons,
        List.map_nil] at hnew
      have hmembers : (buildWrapperRtp p f.1.1 f.1.2).members =
          [f.1.1.getD .pyNone, f.1.2.getD .pyNone] := rfl
      rw [List.flatMap_cons, List.count_append, hmembers]
      omega
    | ers e =>
      rw [readyCounts, processReadyList]
      have hnew := newStealCounts_apply [none, none, none] c x
      have hrest := ih refs (newStealCounts [none, none, none] c)
      simp only [List.flatMap_cons, List.flatMap_nil, List.append_nil, List.map_cons,
        List.map_nil, Option.toList_none, List.count_nil, Option.getD_none] at hnew
      dsimp only
      rw [List.flatMap_cons, List.count_append, PyFrameWrapper.members]
      omega

/-- An entry is in use, or it has no reference. -/
def Tidy (refs : List PyRtpJBufRef) : Prop := ∀ ref ∈ refs, ref = .empty ∨ ref.data ≠ none

/-- An entry that is stored has the references that are taken for it. -/
theorem storeCounts_apply (htidy : Tidy refs)
    (h : storeDataRef inputBytes inputOpaque ptr refs = some refs') (x : PyObject) :
    storeCounts inputBytes inputOpaque refs c x + (held refs).count x =
      c x + (held refs').count x ∧ Tidy refs' := by
  induction refs generalizing refs' with
  | nil => cases h
  | cons ref refs ih =>
    rw [storeDataRef] at h
    rw [storeCounts, List.any_cons]
    by_cases hfree : ref.data = none
    · rw [if_pos hfree] at h
      cases h
      have hempty : ref = .empty := (htidy ref List.mem_cons_self).resolve_right fun hne => hne hfree
      rw [if_pos (by simp [hfree]), increfs_apply, held_cons, held_cons, hempty]
      refine ⟨?_, fun ref' href' => ?_⟩
      · simp only [PyRtpJBufRef.empty, Option.toList_none, List.append_nil, List.nil_append,
          Option.toList_some, List.singleton_append, List.count_append]
        omega
      · rcases List.mem_cons.mp href' with rfl | href'
        · exact .inr (Option.some_ne_none _)
        · exact htidy ref' (List.mem_cons_of_mem _ href')
    · rw [if_neg hfree] at h
      obtain ⟨refs₁, hrest, rfl⟩ := Option.map_eq_some_iff.mp h
      obtain ⟨hcount, htidy₁⟩ := ih (fun ref' href' => htidy ref' (List.mem_cons_of_mem _ href')) hrest
      refine ⟨?_, fun ref' href' => ?_⟩
      · rw [storeCounts] at hcount
        simp only [hfree, decide_false, Bool.false_or, held_cons, List.count_append]
        omega
      · rcases List.mem_cons.mp href' with rfl | href'
        · exact .inr hfree
        · exact htidy₁ ref' href'

/-- **A drop list** releases the references of the entries of its packets, which there are. -/
theorem dropCounts_spec (inputPtr : ℕ) : ∀ (drop : List RtpPacket) (self : PyRtpJBuf)
    {c : Counts PyObject},
    (∀ x, (held self.refs).count x ≤ c x) →
    ∃ c', dropCounts inputPtr self.refs drop c = some c' ∧
      ∀ x, c' x + (held self.refs).count x =
        c x + (held (self.processDropList inputPtr drop).refs).count x := by
  intro drop
  induction drop with
  | nil => exact fun self c _ => ⟨c, rfl, fun x => rfl⟩
  | cons p drop ih =>
    intro self c hheld
    rw [dropCounts, PyRtpJBuf.processDropList]
    by_cases hother : inputPtr = 0 ∨ p.data ≠ inputPtr
    · rw [if_pos hother]
      simp only [if_pos hother]
      have hfetch := fetchCachedCounts_apply p.data self.refs c
      obtain ⟨c₁, hc₁⟩ := decrefs_isSome (c := fetchCachedCounts p.data self.refs c)
        ((fetchCachedRef p.data self.refs).1.1.toList ++
          (fetchCachedRef p.data self.refs).1.2.toList) fun x => by
          have hx := hfetch x
          have hle := hheld x
          omega
      have hback := fun x => decrefs_apply hc₁ x
      obtain ⟨c', hc', hcount⟩ := ih { self with
        refs := (fetchCachedRef p.data self.refs).2, dropped := add64 self.dropped 1 } (c := c₁)
        fun x => by
          have hx := hfetch x
          have hbackx := hback x
          have hle := hheld x
          show (held (fetchCachedRef p.data self.refs).2).count x ≤ c₁ x
          omega
      refine ⟨c', by rw [hc₁, Option.bind_some]; exact hc', fun x => ?_⟩
      have hx := hfetch x
      have hbackx := hback x
      have hcountx : c' x + (held (fetchCachedRef p.data self.refs).2).count x = c₁ x + _ := hcount x
      omega
    · rw [if_neg hother]
      simp only [if_neg hother]
      exact ih { self with dropped := add64 self.dropped 1 } hheld

theorem Tidy.of_mem (h : Tidy refs) (hmem : ∀ ref ∈ refs', ref = .empty ∨ ref ∈ refs) :
    Tidy refs' := by
  intro ref href
  rcases hmem ref href with hempty | hold
  · exact .inl hempty
  · exact h ref hold

theorem Tidy.drop {self : PyRtpJBuf} (h : Tidy self.refs) (hinput : inputPtr ≠ 0)
    (drop : List RtpPacket) : Tidy (self.processDropList inputPtr drop).refs :=
  h.of_mem (processDropList_spec hinput).2.2

/-- `udp_in` releases its own reference to the datagram. -/
theorem release_input {obj : PyObject} {c₁ : Counts PyObject}
    (hheld : (held refs).count obj ≤ c obj)
    (hc₁ : incref c obj obj ≤ c₁ obj + (held refs).count obj) :
    ∃ c', decref c₁ obj = some c' := by
  rw [incref_apply, List.count_singleton_self] at hc₁
  exact decref_isSome (by omega)

/-- **`udp_in`**: the references of the table and of the wrappers returned. -/
theorem udpInCounts_spec (self : PyRtpJBuf) (input : PyBytes) (inputOpaque : PyObject)
    (ruir : RjbUdpInR) (htidy : Tidy self.refs) (hheld : ∀ x, (held self.refs).count x ≤ c x) :
    ∃ c', self.udpInCounts input inputOpaque ruir (incref c (.bytes input)) = some c' ∧
      Tidy (self.udpInDone input inputOpaque ruir).1.refs ∧
      ∀ x, c' x + (held self.refs).count x =
        c x + (held (self.udpInDone input inputOpaque ruir).1.refs).count x +
          ((self.udpInDone input inputOpaque ruir).2.wrappers.flatMap
            PyFrameWrapper.members).count x := by
  have hinput : input.ptr ≠ 0 := ptr_ne_zero input
  have htaken := incref_apply c (.bytes input)
  have hheld₀ : ∀ x, (held self.refs).count x ≤ incref c (.bytes input) x := fun x => by
    rw [htaken]
    exact Nat.le_add_right_of_le (hheld x)
  rw [PyRtpJBuf.udpInCounts, PyRtpJBuf.udpInDone]
  by_cases herror : ruir.error ≠ 0
  · rw [if_pos herror, if_pos herror]
    obtain ⟨c₁, hc₁, hcount⟩ := dropCounts_spec input.ptr ruir.drop self hheld₀
    obtain ⟨c', hc'⟩ := release_input (hheld (.bytes input))
      (Nat.le.intro (hcount (.bytes input)).symm)
    have hnone : (if ruir.error < RtpParserErr.ok.code then PyResult.parseError ruir.error
        else .runtimeError ruir.error).wrappers = [] := by
      split_ifs <;> rfl
    refine ⟨c', by rw [hc₁, Option.bind_some, hc'], htidy.drop hinput _, fun x => ?_⟩
    have hx := hcount x
    have hback := decref_apply hc' x
    have htakenx := htaken x
    rw [hnone]
    simp only [List.flatMap_nil, List.count_nil]
    omega
  · rw [if_neg herror, if_neg herror]
    generalize (!(listHasDataPtr (rtps ruir.ready) input.ptr || listHasDataPtr ruir.drop input.ptr)) =
      keep
    dsimp only
    cases hstore : (if keep = true then storeDataRef (.bytes input) inputOpaque input.ptr self.refs
        else some self.refs) with
    | none =>
      obtain ⟨c₁, hc₁, hcount₁⟩ := dropCounts_spec input.ptr (rtps ruir.ready) self hheld₀
      obtain ⟨c₂, hc₂, hcount₂⟩ := dropCounts_spec input.ptr ruir.drop
        (self.processDropList input.ptr (rtps ruir.ready)) (c := c₁) fun x => by
          have hx := hcount₁ x
          have hle := hheld₀ x
          omega
      obtain ⟨c', hc'⟩ : ∃ c', decref c₂ (.bytes input) = some c' := by
        have hx := hcount₁ (.bytes input)
        have hx' := hcount₂ (.bytes input)
        exact release_input (hheld (.bytes input)) (by omega)
      refine ⟨c', ?_, (htidy.drop hinput _).drop hinput _, fun x => ?_⟩
      · rw [hc₁, Option.bind_some, hc₂, Option.bind_some, hc']
      · have hx := hcount₁ x
        have hx' := hcount₂ x
        have hback := decref_apply hc' x
        have htakenx := htaken x
        simp only [PyResult.wrappers, List.flatMap_nil, List.count_nil]
        omega
    | some refs =>
      -- the references of the entry that is stored
      have hstored : Tidy refs ∧ ∀ x,
          (if keep = true then
            storeCounts (.bytes input) inputOpaque self.refs (incref c (.bytes input))
            else incref c (.bytes input)) x + (held self.refs).count x =
          incref c (.bytes input) x + (held refs).count x := by
        cases keep with
        | true =>
          exact ⟨(storeCounts_apply (c := c) htidy hstore .pyNone).2,
            fun x => (storeCounts_apply htidy hstore x).1⟩
        | false =>
          cases hstore
          exact ⟨htidy, fun x => rfl⟩
      obtain ⟨htidy₁, hcount₁⟩ := hstored
      dsimp only
      generalize (if keep = true then
        storeCounts (.bytes input) inputOpaque self.refs (incref c (.bytes input))
        else incref c (.bytes input)) = c₁ at hcount₁
      have hready := fun x =>
        readyCounts_apply (.bytes input) inputOpaque input.ptr x ruir.ready refs c₁
      have htidy₂ : Tidy (processReadyList (.bytes input) inputOpaque input.ptr refs ruir.ready).2 :=
        htidy₁.of_mem fun ref => processReadyList_mem
      obtain ⟨c₂, hc₂, hcount₂⟩ := dropCounts_spec input.ptr ruir.drop
        { self with
          refs := (processReadyList (.bytes input) inputOpaque input.ptr refs ruir.ready).2 }
        (c := readyCounts (.bytes input) inputOpaque input.ptr refs ruir.ready c₁) fun x => by
          have hx := hcount₁ x
          have hx' := hready x
          have hle := hheld₀ x
          dsimp only
          omega
      dsimp only at hc₂ hcount₂
      obtain ⟨c', hc'⟩ : ∃ c', decref c₂ (.bytes input) = some c' := by
        have hx := hcount₁ (.bytes input)
        have hx' := hready (.bytes input)
        have hx'' := hcount₂ (.bytes input)
        exact release_input (hheld (.bytes input)) (by omega)
      refine ⟨c', by rw [hc₂, Option.bind_some, hc'], Tidy.drop htidy₂ hinput _, fun x => ?_⟩
      have hx := hcount₁ x
      have hx' := hready x
      have hx'' := hcount₂ x
      have hback := decref_apply hc' x
      have htakenx := htaken x
      simp only [PyResult.wrappers]
      omega

/-- **A call** moves references between the table and the wrappers, and releases none that
the table does not have. -/
theorem callCounts_spec {self self' : PyRtpJBuf} {call : PyCall} {res : PyResult}
    (htidy : Tidy self.refs) (hheld : ∀ x, (held self.refs).count x ≤ c x)
    (hs : pyStep self call = some (self', res)) :
    ∃ c', callCounts self c call = some c' ∧ Tidy self'.refs ∧
      ∀ x, c' x + (held self.refs).count x =
        c x + (held self'.refs).count x + (res.wrappers.flatMap PyFrameWrapper.members).count x := by
  cases call with
  | udpIn input inputOpaque =>
    obtain ⟨p, hp, heq⟩ := Option.map_eq_some_iff.mp hs
    rw [callCounts, hp, Option.bind_some]
    have hspec := udpInCounts_spec { self with jb := p.1 } input inputOpaque p.2 htidy hheld
    rwa [heq] at hspec
  | flush =>
    obtain ⟨p, hp, heq⟩ := Option.map_eq_some_iff.mp hs
    cases heq
    rw [callCounts, hp, Option.bind_some]
    have hready := fun x =>
      readyCounts_apply .pyNone .pyNone noInputPtr x p.2.ready self.refs c
    obtain ⟨c', hc', hcount⟩ := dropCounts_spec noInputPtr p.2.drop
      { self with
        jb := p.1
        refs := (processReadyList .pyNone .pyNone noInputPtr self.refs p.2.ready).2 }
      (c := readyCounts .pyNone .pyNone noInputPtr self.refs p.2.ready c) fun x => by
        have hx := hready x
        have hle := hheld x
        dsimp only
        omega
    dsimp only at hc' hcount
    have htidy₁ : Tidy (processReadyList .pyNone .pyNone noInputPtr self.refs p.2.ready).2 :=
      htidy.of_mem fun ref => processReadyList_mem
    refine ⟨c', hc', Tidy.drop htidy₁ (by decide) _, fun x => ?_⟩
    have hx := hready x
    have hx' := hcount x
    simp only [PyResult.wrappers]
    omega

/-- There is nothing left to flush. -/
theorem deallocLoop_empty {self : PyRtpJBuf} (hempty : self.jb.head = []) (rounds : ℕ) :
    deallocLoop (rounds + 1) self c = some (self, c) := by
  have hflush : rtpjbufFlush self.jb = some (self.jb, ⟨0, [], []⟩) := by
    rw [rtpjbufFlush, hempty]
  rw [deallocLoop, hflush, Option.bind_some]
  exact if_pos ⟨rfl, rfl⟩

/-- **The deallocation** releases what the table has. -/
theorem deallocCounts_spec {self : PyRtpJBuf} (hheld : ∀ x, (held self.refs).count x ≤ c x)
    (hflush : (rtpjbufFlush self.jb).isSome) :
    ∃ c', deallocCounts self c = some c' ∧ ∀ x, c' x + (held self.refs).count x = c x := by
  -- the loop keeps the references that are not in the table
  have hloop : ∃ self' c₁, deallocLoop 2 self c = some (self', c₁) ∧
      ∀ x, c₁ x + (held self.refs).count x = c x + (held self'.refs).count x := by
    obtain ⟨p, hp⟩ := Option.isSome_iff_exists.mp hflush
    have hempty : p.1.head = [] := head_of_flush (s := self.jb) (r := p.2) hp
    rw [deallocLoop, hp, Option.bind_some]
    dsimp only
    by_cases hnone : p.2.ready = [] ∧ p.2.drop = []
    · rw [if_pos hnone]
      exact ⟨_, _, rfl, fun x => rfl⟩
    · rw [if_neg hnone]
      obtain ⟨c₁, hc₁, hcount₁⟩ :=
        dropCounts_spec noInputPtr (rtps p.2.ready) { self with jb := p.1 } hheld
      obtain ⟨c₂, hc₂, hcount₂⟩ := dropCounts_spec noInputPtr p.2.drop
        (PyRtpJBuf.processDropList noInputPtr { self with jb := p.1 } (rtps p.2.ready))
        (c := c₁) fun x => by
          have hx := hcount₁ x
          have hle := hheld x
          dsimp only at hx
          omega
      dsimp only at hc₁ hcount₁
      rw [hc₁, Option.bind_some, hc₂, Option.bind_some, deallocLoop_empty]
      · refine ⟨_, _, rfl, fun x => ?_⟩
        have hx := hcount₁ x
        have hx' := hcount₂ x
        omega
      · rw [(processDropList_spec (by decide)).1, (processDropList_spec (by decide)).1]
        exact hempty
  obtain ⟨self', c₁, hself', hcount⟩ := hloop
  obtain ⟨c', hc'⟩ := decrefs_isSome (c := c₁) (held self'.refs) fun x => by
    have hx := hcount x
    have hle := hheld x
    omega
  refine ⟨c', by rw [deallocCounts, hself', Option.bind_some, hc'], fun x => ?_⟩
  have hx := hcount x
  have hback := decrefs_apply hc' x
  omega

end functions

/-! ### Runs -/

/-- The references of the table. -/
def CountedJBuf.table (s : CountedJBuf) : List PyObject :=
  (s.self.map fun self => held self.refs).getD []

/-- Every reference is of the table, of a wrapper or of somebody else. -/
structure CountsInv (s : CountedJBuf) : Prop where
  counts : ∀ x, s.counts x =
    s.own x + s.table.count x + (s.wrappers.flatMap PyFrameWrapper.members).count x
  tidy : ∀ self ∈ s.self, Tidy self.refs

section runs

variable {s s' : CountedJBuf} {event : CountedEvent} {res : Option PyResult}

theorem table_some {self : PyRtpJBuf} (h : s.self = some self) : s.table = held self.refs := by
  rw [CountedJBuf.table, h]
  rfl

/-- The references of a wrapper are among those of all wrappers. -/
theorem members_eraseIdx {wrapper : PyFrameWrapper} {wrappers : List PyFrameWrapper} {i : ℕ}
    (h : wrappers[i]? = some wrapper) (x : PyObject) :
    (wrappers.flatMap PyFrameWrapper.members).count x =
      wrapper.members.count x +
        ((wrappers.eraseIdx i).flatMap PyFrameWrapper.members).count x := by
  induction wrappers generalizing i with
  | nil => cases h
  | cons first wrappers ih =>
    rw [List.flatMap_cons, List.count_append]
    cases i with
    | zero =>
      cases h
      rw [List.eraseIdx_cons_zero]
    | succ i =>
      rw [List.eraseIdx_cons_succ, List.flatMap_cons, List.count_append, ih h]
      omega

theorem CountsInv.held_le (h : CountsInv s) {self : PyRtpJBuf} (hself : s.self = some self)
    (x : PyObject) : (held self.refs).count x ≤ s.counts x := by
  have hx := h.counts x
  rw [table_some hself] at hx
  omega

/-- A call that the C library does not abort can be made. -/
theorem CountsInv.call (h : CountsInv s) {self self' : PyRtpJBuf} {call : PyCall} {r : PyResult}
    (hself : s.self = some self) (hs : pyStep self call = some (self', r)) :
    ∃ s', countedStep s (.call call) = some (s', some r) ∧ CountsInv s' := by
  have htable := table_some hself
  obtain ⟨c', hc', htidy, hcount⟩ := callCounts_spec (h.tidy self hself) (h.held_le hself) hs
  have hstep : countedStep s (.call call) =
      some ({ s with self := some self', wrappers := s.wrappers ++ r.wrappers, counts := c' },
        some r) := by
    rw [countedStep, hself, Option.bind_some, hs, Option.bind_some, hc']
    rfl
  refine ⟨_, hstep, ?_, ?_⟩
  · intro x
    have hx := h.counts x
    have hx' := hcount x
    rw [htable] at hx
    show c' x = s.own x + (held self'.refs).count x +
      ((s.wrappers ++ r.wrappers).flatMap PyFrameWrapper.members).count x
    rw [List.flatMap_append, List.count_append]
    omega
  · intro self'' hself''
    cases hself''
    exact htidy

theorem CountsInv.dropWrapper (h : CountsInv s) {i : ℕ} (hi : i < s.wrappers.length) :
    ∃ s', countedStep s (.dropWrapper i) = some (s', none) ∧ CountsInv s' := by
  have hwrapper : s.wrappers[i]? = some s.wrappers[i] := List.getElem?_eq_getElem hi
  have hmembers := fun x => members_eraseIdx hwrapper x
  obtain ⟨c', hc'⟩ := decrefs_isSome (c := s.counts) s.wrappers[i].members fun x => by
    have hx := h.counts x
    have hx' := hmembers x
    omega
  have hstep : countedStep s (.dropWrapper i) =
      some ({ s with wrappers := s.wrappers.eraseIdx i, counts := c' }, none) := by
    rw [countedStep, hwrapper, Option.bind_some, hc']
    rfl
  refine ⟨_, hstep, fun x => ?_, h.tidy⟩
  have hx := h.counts x
  have hx' := hmembers x
  have hback := decrefs_apply hc' x
  show c' x = s.own x + s.table.count x +
    ((s.wrappers.eraseIdx i).flatMap PyFrameWrapper.members).count x
  omega

theorem CountsInv.dealloc (h : CountsInv s) {self : PyRtpJBuf} (hself : s.self = some self)
    (hflush : (rtpjbufFlush self.jb).isSome) :
    ∃ s', countedStep s .dealloc = some (s', none) ∧ CountsInv s' := by
  have htable := table_some hself
  obtain ⟨c', hc', hcount⟩ := deallocCounts_spec (h.held_le hself) hflush
  have hstep : countedStep s .dealloc = some ({ s with self := none, counts := c' }, none) := by
    rw [countedStep, hself, Option.bind_some, hc']
    rfl
  refine ⟨_, hstep, fun x => ?_, fun self' hself' => by cases hself'⟩
  have hx := h.counts x
  have hx' := hcount x
  rw [htable] at hx
  show c' x = s.own x + 0 + (s.wrappers.flatMap PyFrameWrapper.members).count x
  omega

theorem CountsInv.release (h : CountsInv s) {obj : PyObject} (hobj : s.own obj ≠ 0) :
    ∃ s', countedStep s (.release obj) = some (s', none) ∧ CountsInv s' := by
  obtain ⟨own, hown⟩ := decref_isSome hobj
  obtain ⟨c', hc'⟩ := decref_isSome (c := s.counts) (x := obj) (by
    have hx := h.counts obj
    omega)
  have hstep : countedStep s (.release obj) =
      some ({ s with own := own, counts := c' }, none) := by
    rw [countedStep, hown, Option.bind_some, hc']
    rfl
  refine ⟨_, hstep, fun x => ?_, h.tidy⟩
  have hx := h.counts x
  have hback := decref_apply hown x
  have hback' := decref_apply hc' x
  show c' x = own x + s.table.count x + (s.wrappers.flatMap PyFrameWrapper.members).count x
  omega

theorem flush_of_dealloc {self : PyRtpJBuf} {c c' : Counts PyObject}
    (h : deallocCounts self c = some c') : (rtpjbufFlush self.jb).isSome := by
  obtain ⟨p, hloop, -⟩ := Option.bind_eq_some_iff.mp h
  obtain ⟨q, hq, -⟩ := Option.bind_eq_some_iff.mp hloop
  exact Option.isSome_iff_exists.mpr ⟨q, hq⟩

/-- **One step.** -/
theorem CountsInv.step (h : CountsInv s) (hs : countedStep s event = some (s', res)) :
    CountsInv s' := by
  cases event with
  | call call =>
    obtain ⟨self, hself, hrest⟩ := Option.bind_eq_some_iff.mp hs
    obtain ⟨p, hp, -⟩ := Option.bind_eq_some_iff.mp hrest
    obtain ⟨s'', hs'', hinv⟩ := h.call hself hp
    cases hs.symm.trans hs''
    exact hinv
  | dropWrapper i =>
    obtain ⟨wrapper, hwrapper, -⟩ := Option.bind_eq_some_iff.mp hs
    obtain ⟨hi, -⟩ := List.getElem?_eq_some_iff.mp hwrapper
    obtain ⟨s'', hs'', hinv⟩ := h.dropWrapper hi
    cases hs.symm.trans hs''
    exact hinv
  | dealloc =>
    obtain ⟨self, hself, hrest⟩ := Option.bind_eq_some_iff.mp hs
    obtain ⟨c', hc', -⟩ := Option.map_eq_some_iff.mp hrest
    obtain ⟨s'', hs'', hinv⟩ := h.dealloc hself (flush_of_dealloc hc')
    cases hs.symm.trans hs''
    exact hinv
  | take obj =>
    cases hs
    refine ⟨fun x => ?_, h.tidy⟩
    have hx := h.counts x
    show incref s.counts obj x = incref s.own obj x + s.table.count x +
      (s.wrappers.flatMap PyFrameWrapper.members).count x
    rw [incref_apply, incref_apply]
    omega
  | release obj =>
    obtain ⟨own, hown, -⟩ := Option.bind_eq_some_iff.mp hs
    have hobj : s.own obj ≠ 0 := fun hzero => by
      rw [decref, if_pos hzero] at hown
      cases hown
    obtain ⟨s'', hs'', hinv⟩ := h.release hobj
    cases hs.symm.trans hs''
    exact hinv

theorem countsInv_start (capacity : ℕ) (own : Counts PyObject) :
    CountsInv (countedStart capacity own) where
  counts x := by
    have hheld : held (List.replicate capacity .empty) = [] :=
      List.flatMap_eq_nil_iff.mpr fun ref href => by
        rw [List.eq_of_mem_replicate href]
        rfl
    show own x = own x + (held (List.replicate capacity .empty)).count x + 0
    rw [hheld]
    rfl
  tidy self hself := by
    cases hself
    exact fun ref href => .inl (List.eq_of_mem_replicate href)

end runs

/-- **The references balance.**  In any run of calls, of wrappers that go away and of
references that others take and release, the count of every object is the number of
references that the table, the wrappers and the others have.  No call, no wrapper and no
deallocation releases a reference that it does not have.  Behind the deallocation of the
object and of its wrappers only the references of the others are left. -/
theorem countedRun_balance {capacity : ℕ} {own : Counts PyObject} {events : List CountedEvent}
    {s : CountedJBuf} {results : List (Option PyResult)}
    (h : run countedStep (countedStart capacity own) events = some (s, results)) :
    (∀ x, s.counts x =
      s.own x + s.table.count x + (s.wrappers.flatMap PyFrameWrapper.members).count x) ∧
    (∀ self call, s.self = some self → (pyStep self call).isSome →
      (countedStep s (.call call)).isSome) ∧
    (∀ i < s.wrappers.length, (countedStep s (.dropWrapper i)).isSome) ∧
    (∀ self, s.self = some self → (rtpjbufFlush self.jb).isSome →
      (countedStep s .dealloc).isSome) ∧
    (∀ obj, s.own obj ≠ 0 → (countedStep s (.release obj)).isSome) ∧
    (s.self = none → s.wrappers = [] → s.counts = s.own) := by
  have hinv : CountsInv s :=
    run_induction (P := fun _ _ => True) (fun _ _ s => CountsInv s) (countsInv_start capacity own)
      (fun hs _ hstep => hs.step hstep) (Always.of_forall fun _ _ _ => trivial) h
  refine ⟨hinv.counts, fun self call hself hcall => ?_, fun i hi => ?_, fun self hself hflush => ?_,
    fun obj hobj => ?_, fun hself hwrappers => funext fun x => ?_⟩
  · obtain ⟨p, hp⟩ := Option.isSome_iff_exists.mp hcall
    obtain ⟨s', hs', -⟩ := hinv.call hself hp
    exact Option.isSome_iff_exists.mpr ⟨_, hs'⟩
  · obtain ⟨s', hs', -⟩ := hinv.dropWrapper hi
    exact Option.isSome_iff_exists.mpr ⟨_, hs'⟩
  · obtain ⟨s', hs', -⟩ := hinv.dealloc hself hflush
    exact Option.isSome_iff_exists.mpr ⟨_, hs'⟩
  · obtain ⟨s', hs', -⟩ := hinv.release hobj
    exact Option.isSome_iff_exists.mpr ⟨_, hs'⟩
  · have hx := hinv.counts x
    rw [CountedJBuf.table, hself, hwrappers] at hx
    exact hx

/-- A datagram that waits in the buffer is released with it. -/
theorem countedRun_balance_waiting :
    ∃ s results, run countedStep (countedStart 3 fun _ => 1)
        [.call (.udpIn ⟨1000, datagram 5⟩ .pyNone), .call (.udpIn ⟨2000, datagram 7⟩ (.other 8)),
          .dealloc] = some (s, results) ∧ s.self = none ∧ s.wrappers = [] ∧ s.counts = s.own := by
  obtain ⟨⟨s, results⟩, hrun⟩ := Option.isSome_iff_exists.mp
    (by decide : (run countedStep (countedStart 3 fun _ => 1)
      [.call (.udpIn ⟨1000, datagram 5⟩ .pyNone), .call (.udpIn ⟨2000, datagram 7⟩ (.other 8)),
        .dealloc]).isSome = true)
  have hend : (run countedStep (countedStart 3 fun _ => 1)
      [.call (.udpIn ⟨1000, datagram 5⟩ .pyNone), .call (.udpIn ⟨2000, datagram 7⟩ (.other 8)),
        .dealloc]).map (fun p => (p.1.self, p.1.wrappers)) = some (none, []) := by decide
  rw [hrun, Option.map_some, Option.some.injEq, Prod.mk.injEq] at hend
  exact ⟨s, results, hrun, hend.1, hend.2,
    (countedRun_balance hrun).2.2.2.2.2 hend.1 hend.2⟩

end Rtp
