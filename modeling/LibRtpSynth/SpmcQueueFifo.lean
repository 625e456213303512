/-
`SPMCQueue` refines a bounded FIFO.

The values pushed and the values popped by a run are read off its events
(`pushed`, `popped`): a push counts from the store of `writeIdx` on, a pop from
its successful compare-exchange on.  `QueueInv` ties the shared memory to these
two lists, `ProducerInv` and `ConsumerInv` say what the local variables of a
thread are worth.  The point of the algorithm is in `ConsumerInv`: what a
consumer has read matters only as long as `readIdx` has not moved since it
looked, and a slot is overwritten only after `readIdx` has moved beyond it.

* `tryPush_inv`, `popStep_inv` — one access of the producer, of a consumer;
* `sysRun_fifo` — every interleaving.
-/
import LibRtpSynth.SpmcQueue
import Mathlib.Data.List.Infix

open CWords Runs

namespace Spmc

variable {ι α : Type} {P R : List α} {queue queue' : SPMCQueue α} {full empty : Prop}

/-! ### What a run has pushed and popped -/

/-- The value an event adds to the queue. -/
def Event.push : Event ι α → List α
  | .pushed value => [value]
  | _ => []

/-- The values an event takes from the queue. -/
def Event.pop : Event ι α → List α
  | .popped _ _ values _ => values
  | _ => []

@[simp] theorem Event.push_access : (Event.access : Event ι α).push = [] := rfl

@[simp] theorem Event.push_pushFull : (Event.pushFull : Event ι α).push = [] := rfl

@[simp] theorem Event.pop_access : (Event.access : Event ι α).pop = [] := rfl

/-- The successfully pushed values, in order. -/
def pushed (es : List (Event ι α)) : List α := es.flatMap Event.push

/-- The values of the successful pops, ordered by their compare-exchanges. -/
def popped (es : List (Event ι α)) : List α := es.flatMap Event.pop

@[simp] theorem pushed_concat (es : List (Event ι α)) (e : Event ι α) :
    pushed (es ++ [e]) = pushed es ++ e.push := by
  simp [pushed]

@[simp] theorem popped_concat (es : List (Event ι α)) (e : Event ι α) :
    popped (es ++ [e]) = popped es ++ e.pop := by
  simp [popped]

/-! ### Invariants -/

/-- The shared memory when the values `P` were pushed and `R` popped. -/
structure QueueInv (P R : List α) (queue : SPMCQueue α) : Prop where
  capacity_pos : 0 < queue.capacity
  mask : ∀ i, i &&& queue.mask = i % queue.capacity
  bound : P.length < 2 ^ 63
  writeIdx : queue.writeIdx = P.length
  readIdx : queue.readIdx = R.length
  fifo : R <+: P
  readIdxCache : queue.readIdxCache ≤ R.length
  room : P.length ≤ queue.readIdxCache + queue.capacity
  writeIdxCache : queue.writeIdxCache ≤ P.length
  slots : ∀ i, R.length ≤ i → i < P.length → P[i]? = some (queue.slots (i % queue.capacity))

/-- The local variables of the producer; `full` stands for "the queue was full
at some step of the call". -/
def ProducerInv (P R : List α) (queue : SPMCQueue α) (full : Prop) : Producer α → Prop
  | .idle | .loadWriteIdx _ => True
  | .checkSize _ writeIdx nextWriteIdx | .loadReadIdx _ writeIdx nextWriteIdx =>
    writeIdx = P.length ∧ nextWriteIdx = P.length + 1
  | .storeReadIdxCache _ writeIdx nextWriteIdx readIdx =>
    writeIdx = P.length ∧ nextWriteIdx = P.length + 1 ∧ queue.readIdxCache ≤ readIdx ∧
      readIdx ≤ R.length ∧ (readIdx + queue.capacity < P.length + 1 → full)
  | .recheckSize _ writeIdx nextWriteIdx =>
    writeIdx = P.length ∧ nextWriteIdx = P.length + 1 ∧
      (queue.readIdxCache + queue.capacity < P.length + 1 → full)
  | .writeSlot _ writeIdx nextWriteIdx =>
    writeIdx = P.length ∧ nextWriteIdx = P.length + 1 ∧
      P.length + 1 ≤ queue.readIdxCache + queue.capacity
  | .storeWriteIdx value nextWriteIdx =>
    nextWriteIdx = P.length + 1 ∧ P.length + 1 ≤ queue.readIdxCache + queue.capacity ∧
      queue.slots (P.length % queue.capacity) = value

/-- The number of values asked for is below the bound. -/
def Pop.ok : Pop → Prop
  | .tryPop => True
  | .tryPopMany howmany => howmany < 2 ^ 61

instance : ∀ op : Pop, Decidable op.ok
  | .tryPop => inferInstanceAs (Decidable True)
  | .tryPopMany howmany => inferInstanceAs (Decidable (howmany < 2 ^ 61))

/-- `values` are the pushed values from `readIdx` on up to `i`, unless somebody
else has popped since. -/
structure Read (P R : List α) (readIdx i : ℕ) (values : List α) : Prop where
  readIdx_le : readIdx ≤ R.length
  le : readIdx ≤ i
  le_length : i ≤ P.length
  length : values.length = i - readIdx
  eq : readIdx = R.length → values = (P.drop readIdx).take (i - readIdx)

/-- The local variables of a consumer; `empty` stands for "the queue was empty
at some step of the call". -/
def ConsumerInv (P R : List α) (empty : Prop) : Consumer α → Prop
  | .idle => True
  | .loadReadIdx op => op.ok
  | .loadWriteIdxCache op readIdx | .loadWriteIdx op readIdx => op.ok ∧ readIdx ≤ R.length
  | .storeWriteIdxCache op readIdx writeIdxCache =>
    op.ok ∧ readIdx ≤ R.length ∧ readIdx ≤ writeIdxCache ∧ writeIdxCache ≤ P.length ∧
      (readIdx = writeIdxCache → empty)
  | .readSlot op readIdx newReadIdx i values =>
    op.ok ∧ Read P R readIdx i values ∧ i < newReadIdx ∧ newReadIdx ≤ P.length ∧
      (op = .tryPop → newReadIdx = i + 1)
  | .updateReadIdx op readIdx newReadIdx values =>
    op.ok ∧ Read P R readIdx newReadIdx values ∧ (op ≠ .tryPopMany 0 → readIdx < newReadIdx)
  | .aborted => False

/-- What an event says about the call that it ends: `full` stands for "the queue
was full at some step of the push", `empty c` for "the queue was empty at some
step of the pop of `c`". -/
structure Justified (full : Prop) (empty : ι → Prop) (e : Event ι α) : Prop where
  full : e = .pushFull → full
  empty : ∀ c op, e = .popEmpty c op → empty c
  values : ∀ c op values rval, e = .popped c op values rval →
    rval = values.length ∧ (op ≠ .tryPopMany 0 → values ≠ [])
  noAssert : ∀ c, e ≠ .assertFailed c

theorem justified_access (full : Prop) (empty : ι → Prop) :
    Justified full empty (.access : Event ι α) :=
  ⟨by simp, by simp, by simp, by simp⟩

theorem Justified.mono {full' : Prop} {empty empty' : ι → Prop} {e : Event ι α}
    (h : Justified full empty e) (hfull : full → full') (hempty : ∀ c, empty c → empty' c) :
    Justified full' empty' e :=
  ⟨fun he => hfull (h.full he), fun c op he => hempty c (h.empty c op he), h.values, h.noAssert⟩

/-! ### What other threads do to a thread -/

theorem Read.mono {P' R' values : List α} {readIdx i : ℕ} (h : Read P R readIdx i values)
    (hP : P <+: P') (hR : R.length ≤ R'.length) : Read P' R' readIdx i values := by
  have hlen := hP.length_le
  have h1 := h.readIdx_le
  have h2 := h.le_length
  refine ⟨by omega, h.le, by omega, h.length, fun heq => ?_⟩
  obtain ⟨Q, rfl⟩ := hP
  -- when nobody has popped meanwhile, the values are where they were
  rw [h.eq (by omega), List.drop_append_of_le_length (by have := h.le; omega),
    List.take_append_of_le_length]
  rw [List.length_drop]
  omega

theorem ConsumerInv.mono {P' R' : List α} {empty' : Prop} {k : Consumer α}
    (h : ConsumerInv P R empty k) (hP : P <+: P') (hR : R.length ≤ R'.length)
    (hempty : empty → empty') : ConsumerInv P' R' empty' k := by
  have hlen := hP.length_le
  cases k with
  | idle => trivial
  | loadReadIdx op => exact h
  | loadWriteIdxCache op readIdx => exact ⟨h.1, h.2.trans hR⟩
  | loadWriteIdx op readIdx => exact ⟨h.1, h.2.trans hR⟩
  | storeWriteIdxCache op readIdx writeIdxCache =>
    obtain ⟨h1, h2, h3, h4, h5⟩ := h
    exact ⟨h1, h2.trans hR, h3, h4.trans hlen, fun heq => hempty (h5 heq)⟩
  | readSlot op readIdx newReadIdx i values =>
    obtain ⟨h1, h2, h3, h4, h5⟩ := h
    exact ⟨h1, h2.mono hP hR, h3, h4.trans hlen, h5⟩
  | updateReadIdx op readIdx newReadIdx values =>
    obtain ⟨h1, h2, h3⟩ := h
    exact ⟨h1, h2.mono hP hR, h3⟩
  | aborted => exact h.elim

/-- The producer's variables depend only on its own part of the memory and on
how much was popped. -/
theorem ProducerInv.mono {R' : List α} {full' : Prop} {k : Producer α}
    (h : ProducerInv P R queue full k) (hR : R.length ≤ R'.length)
    (hcap : queue'.capacity = queue.capacity) (hcache : queue'.readIdxCache = queue.readIdxCache)
    (hslots : queue'.slots = queue.slots) (hfull : full → full') :
    ProducerInv P R' queue' full' k := by
  cases k with
  | idle => trivial
  | loadWriteIdx value => trivial
  | checkSize value writeIdx nextWriteIdx => exact h
  | loadReadIdx value writeIdx nextWriteIdx => exact h
  | storeReadIdxCache value writeIdx nextWriteIdx readIdx =>
    obtain ⟨h1, h2, h3, h4, h5⟩ := h
    exact ⟨h1, h2, by rw [hcache]; exact h3, h4.trans hR, fun hlt => hfull (h5 (hcap ▸ hlt))⟩
  | recheckSize value writeIdx nextWriteIdx =>
    obtain ⟨h1, h2, h3⟩ := h
    exact ⟨h1, h2, fun hlt => hfull (h3 (by rw [← hcap, ← hcache]; exact hlt))⟩
  | writeSlot value writeIdx nextWriteIdx =>
    obtain ⟨h1, h2, h3⟩ := h
    exact ⟨h1, h2, by rw [hcache, hcap]; exact h3⟩
  | storeWriteIdx value nextWriteIdx =>
    obtain ⟨h1, h2, h3⟩ := h
    exact ⟨h1, by rw [hcache, hcap]; exact h2, by rw [hcap, hslots]; exact h3⟩

/-! ### One access of the producer -/

/-- Two indices less than the capacity apart use different slots. -/
theorem mod_ne_of_lt {i w capacity : ℕ} (hlt : i < w) (hnear : w < i + capacity) :
    i % capacity ≠ w % capacity := by
  intro heq
  have hdvd : capacity ∣ w - i := (Nat.modEq_iff_dvd' hlt.le).mp heq
  have := Nat.le_of_dvd (by omega) hdvd
  omega

/-- The slot written is not one that holds a queued value. -/
theorem QueueInv.writeSlot (hq : QueueInv P R queue) (value : α)
    (hroom : P.length + 1 ≤ queue.readIdxCache + queue.capacity) :
    QueueInv P R
      { queue with slots := Function.update queue.slots (P.length % queue.capacity) value } := by
  have hcache := hq.readIdxCache
  refine ⟨hq.capacity_pos, hq.mask, hq.bound, hq.writeIdx, hq.readIdx, hq.fifo, hcache, hq.room,
    hq.writeIdxCache, fun i hi hlt => ?_⟩
  dsimp only
  rw [Function.update_of_ne (mod_ne_of_lt hlt (by omega))]
  exact hq.slots i hi hlt

/-- The value becomes visible with the store of `writeIdx`. -/
theorem QueueInv.publish {value : α} (hq : QueueInv P R queue)
    (hroom : P.length + 1 ≤ queue.readIdxCache + queue.capacity)
    (hslot : queue.slots (P.length % queue.capacity) = value) (hbound : (P ++ [value]).length < 2 ^ 63) :
    QueueInv (P ++ [value]) R { queue with writeIdx := P.length + 1 } := by
  have hlen : (P ++ [value]).length = P.length + 1 := by simp
  have hcache := hq.writeIdxCache
  refine ⟨hq.capacity_pos, hq.mask, hbound, hlen.symm, hq.readIdx, hq.fifo.trans (List.prefix_append _ _),
    hq.readIdxCache, ?_, ?_, fun i hi hlt => ?_⟩
  · rw [hlen]
    exact hroom
  · show queue.writeIdxCache ≤ (P ++ [value]).length
    omega
  · show (P ++ [value])[i]? = _
    by_cases hold : i < P.length
    · rw [List.getElem?_append_left hold]
      exact hq.slots i hi hold
    · obtain rfl : i = P.length := by omega
      rw [List.getElem?_concat_length]
      exact congrArg some hslot.symm

/-- An access of the producer that shows nothing. -/
theorem push_quiet {full' : Prop} {k' : Producer α} (hq : QueueInv P R queue')
    (hk : ProducerInv P R queue' full' k') (hcap : queue'.capacity = queue.capacity) :
    QueueInv (P ++ (Event.access : Event ι α).push) R queue' ∧
      ProducerInv (P ++ (Event.access : Event ι α).push) R queue' full' k' ∧
      Justified full (fun _ => False) (.access : Event ι α) ∧
      (Event.access : Event ι α).pop = [] ∧ queue'.capacity = queue.capacity := by
  rw [Event.push_access, List.append_nil]
  exact ⟨hq, hk, justified_access _ _, rfl, hcap⟩

/-- **One access of `try_push`** keeps the memory and the producer's variables
right; a push that returns `false` has seen the queue full. -/
theorem tryPush_inv {full' : Prop} {k k' : Producer α} {e : Event ι α}
    (hq : QueueInv P R queue) (hk : ProducerInv P R queue full k)
    (hs : tryPush queue k = some (queue', k', e)) (hbound : (P ++ e.push).length < 2 ^ 63)
    (hfull : full → full') (hnow : P.length = R.length + queue.capacity → full') :
    QueueInv (P ++ e.push) R queue' ∧ ProducerInv (P ++ e.push) R queue' full' k' ∧
      Justified full (fun _ => False) e ∧ e.pop = [] ∧ queue'.capacity = queue.capacity := by
  have hb := hq.bound
  have hroom := hq.room
  have hcache := hq.readIdxCache
  have hfifo := hq.fifo.length_le
  cases k with
  | idle => cases hs
  | loadWriteIdx value =>
    simp only [tryPush, Option.some.injEq, Prod.mk.injEq] at hs
    obtain ⟨rfl, rfl, rfl⟩ := hs
    refine push_quiet hq ⟨hq.writeIdx, ?_⟩ rfl
    rw [hq.writeIdx, add64_of_lt (by omega)]
  | checkSize value writeIdx nextWriteIdx =>
    obtain ⟨rfl, rfl⟩ := hk
    rw [tryPush, sub64_of_le (by omega) (by omega)] at hs
    split at hs
    · rename_i hsize
      simp only [Option.some.injEq, Prod.mk.injEq] at hs
      obtain ⟨rfl, rfl, rfl⟩ := hs
      exact push_quiet hq ⟨rfl, rfl, by omega⟩ rfl
    · simp only [Option.some.injEq, Prod.mk.injEq] at hs
      obtain ⟨rfl, rfl, rfl⟩ := hs
      exact push_quiet hq ⟨rfl, rfl⟩ rfl
  | loadReadIdx value writeIdx nextWriteIdx =>
    obtain ⟨rfl, rfl⟩ := hk
    simp only [tryPush, Option.some.injEq, Prod.mk.injEq] at hs
    obtain ⟨rfl, rfl, rfl⟩ := hs
    -- a full queue is seen here, at the load of `readIdx`
    refine push_quiet hq ⟨rfl, rfl, ?_, hq.readIdx.le, fun hlt => hnow ?_⟩ rfl
    · rw [hq.readIdx]; exact hcache
    · rw [hq.readIdx] at hlt
      omega
  | storeReadIdxCache value writeIdx nextWriteIdx readIdx =>
    obtain ⟨rfl, rfl, h3, h4, h5⟩ := hk
    simp only [tryPush, Option.some.injEq, Prod.mk.injEq] at hs
    obtain ⟨rfl, rfl, rfl⟩ := hs
    refine push_quiet ⟨hq.capacity_pos, hq.mask, hb, hq.writeIdx, hq.readIdx, hq.fifo, h4, ?_,
      hq.writeIdxCache, hq.slots⟩ ⟨rfl, rfl, fun hlt => hfull (h5 hlt)⟩ rfl
    show P.length ≤ readIdx + queue.capacity
    omega
  | recheckSize value writeIdx nextWriteIdx =>
    obtain ⟨rfl, rfl, h3⟩ := hk
    rw [tryPush, sub64_of_le (by omega) (by omega)] at hs
    split at hs
    · rename_i hsize
      simp only [Option.some.injEq, Prod.mk.injEq] at hs
      obtain ⟨rfl, rfl, rfl⟩ := hs
      exact push_quiet hq ⟨rfl, rfl, by omega⟩ rfl
    · rename_i hsize
      simp only [Option.some.injEq, Prod.mk.injEq] at hs
      obtain ⟨rfl, rfl, rfl⟩ := hs
      rw [Event.push_pushFull, List.append_nil]
      exact ⟨hq, trivial, ⟨fun _ => h3 (by omega), by simp, by simp, by simp⟩, rfl, rfl⟩
  | writeSlot value writeIdx nextWriteIdx =>
    obtain ⟨rfl, rfl, h3⟩ := hk
    simp only [tryPush, Option.some.injEq, Prod.mk.injEq] at hs
    obtain ⟨rfl, rfl, rfl⟩ := hs
    rw [hq.mask]
    exact push_quiet (hq.writeSlot value h3) ⟨rfl, h3, Function.update_self _ _ _⟩ rfl
  | storeWriteIdx value nextWriteIdx =>
    obtain ⟨rfl, h2, h3⟩ := hk
    simp only [tryPush, Option.some.injEq, Prod.mk.injEq] at hs
    obtain ⟨rfl, rfl, rfl⟩ := hs
    exact ⟨hq.publish h2 h3 hbound, trivial, ⟨by simp, by simp, by simp, by simp⟩, rfl, rfl⟩

/-! ### One access of a consumer -/

theorem Read.nil {readIdx : ℕ} (h : readIdx ≤ R.length) (h' : readIdx ≤ P.length) :
    Read P R readIdx readIdx [] :=
  ⟨h, le_rfl, h', by simp, fun _ => by simp⟩

/-- Another slot is read. -/
theorem Read.snoc {readIdx i : ℕ} {values : List α} {v : α} (h : Read P R readIdx i values)
    (hlt : i < P.length) (hv : R.length ≤ i → P[i]? = some v) :
    Read P R readIdx (i + 1) (values ++ [v]) := by
  have hle := h.le
  refine ⟨h.readIdx_le, by omega, hlt, ?_, fun heq => ?_⟩
  · rw [List.length_append, h.length, List.length_singleton]
    omega
  · have hget : (P.drop readIdx)[i - readIdx]? = some v := by
      rw [List.getElem?_drop, Nat.add_sub_cancel' hle]
      exact hv (by omega)
    rw [h.eq heq, show i + 1 - readIdx = (i - readIdx) + 1 by omega, List.take_add_one, hget]
    rfl

theorem manyLoop_inv {howmany readIdx newReadIdx i : ℕ} {values : List α}
    (hok : (Pop.tryPopMany howmany).ok) (h : Read P R readIdx i values) (hle : i ≤ newReadIdx)
    (hnew : newReadIdx ≤ P.length) (hpos : howmany ≠ 0 → readIdx < newReadIdx) :
    ConsumerInv P R empty (manyLoop howmany readIdx newReadIdx i values) := by
  rw [manyLoop]
  split
  · rename_i hlt
    exact ⟨hok, h, hlt, hnew, by simp⟩
  · rename_i hge
    obtain rfl : i = newReadIdx := by omega
    exact ⟨hok, h, fun hne => hpos fun hzero => hne (by rw [hzero])⟩

theorem notEmpty_inv {op : Pop} {readIdx writeIdxCache : ℕ} (hq : QueueInv P R queue) (hok : op.ok)
    (hle : readIdx ≤ R.length) (hlt : readIdx < writeIdxCache) (hwrite : writeIdxCache ≤ P.length) :
    ConsumerInv P R empty (notEmpty op readIdx writeIdxCache) := by
  have hb := hq.bound
  have hread : Read P R readIdx readIdx [] := .nil hle (by omega)
  cases op with
  | tryPop =>
    rw [notEmpty, add64_of_lt (by omega)]
    exact ⟨hok, hread, by omega, by omega, fun _ => rfl⟩
  | tryPopMany howmany =>
    have hmany : howmany < 2 ^ 61 := hok
    rw [notEmpty, add64_of_lt (by omega)]
    split
    · exact manyLoop_inv hok hread hlt.le hwrite fun _ => hlt
    · exact manyLoop_inv hok hread (by omega) (by omega) fun hne => by omega

/-- What a consumer has read when nobody has popped since it loaded `readIdx`. -/
theorem Read.popped {newReadIdx : ℕ} {values : List α} (h : Read P R R.length newReadIdx values)
    (hfifo : R <+: P) : R ++ values <+: P ∧ (R ++ values).length = newReadIdx := by
  have hle := h.le
  constructor
  · have hvalues := h.eq rfl
    obtain ⟨Q, rfl⟩ := hfifo
    rw [hvalues, List.drop_left]
    exact (List.prefix_append_right_inj R).mpr (List.take_prefix _ _)
  · rw [List.length_append, h.length]
    omega

/-- The values are taken with the compare-exchange of `readIdx`. -/
theorem QueueInv.popped {newReadIdx : ℕ} {values : List α} (hq : QueueInv P R queue)
    (h : Read P R R.length newReadIdx values) :
    QueueInv P (R ++ values) { queue with readIdx := newReadIdx } := by
  obtain ⟨hfront, hcount⟩ := h.popped hq.fifo
  have hcache := hq.readIdxCache
  have hle := h.le
  refine ⟨hq.capacity_pos, hq.mask, hq.bound, hq.writeIdx, hcount.symm, hfront, ?_, hq.room,
    hq.writeIdxCache, fun i hi hlt => hq.slots i (by omega) hlt⟩
  show queue.readIdxCache ≤ _
  omega

/-- An access of a consumer that shows nothing. -/
theorem pop_quiet {empty' : Prop} {c : ι} {k' : Consumer α} (hq : QueueInv P R queue')
    (hk : ConsumerInv P R empty' k') (hcap : queue'.capacity = queue.capacity)
    (hcache : queue'.readIdxCache = queue.readIdxCache) (hslots : queue'.slots = queue.slots) :
    QueueInv P (R ++ (Event.access : Event ι α).pop) queue' ∧
      ConsumerInv P (R ++ (Event.access : Event ι α).pop) empty' k' ∧
      Justified False (fun c' => c' = c ∧ empty) (.access : Event ι α) ∧
      (Event.access : Event ι α).push = [] ∧ queue'.capacity = queue.capacity ∧
      queue'.readIdxCache = queue.readIdxCache ∧ queue'.slots = queue.slots := by
  rw [Event.pop_access, List.append_nil]
  exact ⟨hq, hk, justified_access _ _, rfl, hcap, hcache, hslots⟩

/-- **One access of `try_pop` or `try_pop_many`.** -/
theorem popStep_inv {empty' : Prop} {c : ι} {spurious : Bool} {k k' : Consumer α}
    {e : Event ι α} (hq : QueueInv P R queue) (hk : ConsumerInv P R empty k)
    (hs : popStep c spurious queue k = some (queue', k', e)) (hnow : P.length = R.length → empty') :
    QueueInv P (R ++ e.pop) queue' ∧ ConsumerInv P (R ++ e.pop) empty' k' ∧
      Justified False (fun c' => c' = c ∧ empty) e ∧ e.push = [] ∧
      queue'.capacity = queue.capacity ∧ queue'.readIdxCache = queue.readIdxCache ∧
      queue'.slots = queue.slots := by
  have hb := hq.bound
  have hfifo := hq.fifo.length_le
  cases k with
  | idle => cases hs
  | loadReadIdx op =>
    simp only [popStep, Option.some.injEq, Prod.mk.injEq] at hs
    obtain ⟨rfl, rfl, rfl⟩ := hs
    exact pop_quiet hq ⟨hk, hq.readIdx.le⟩ rfl rfl rfl
  | loadWriteIdxCache op readIdx =>
    obtain ⟨hok, hle⟩ := hk
    rw [popStep] at hs
    split at hs
    · simp only [Option.some.injEq, Prod.mk.injEq] at hs
      obtain ⟨rfl, rfl, rfl⟩ := hs
      exact pop_quiet hq ⟨hok, hle⟩ rfl rfl rfl
    · rename_i hlt
      simp only [Option.some.injEq, Prod.mk.injEq] at hs
      obtain ⟨rfl, rfl, rfl⟩ := hs
      exact pop_quiet hq (notEmpty_inv hq hok hle (by omega) hq.writeIdxCache) rfl rfl rfl
  | loadWriteIdx op readIdx =>
    obtain ⟨hok, hle⟩ := hk
    simp only [popStep, Option.some.injEq, Prod.mk.injEq] at hs
    obtain ⟨rfl, rfl, rfl⟩ := hs
    -- an empty queue is seen here: nobody has popped beyond `readIdx` before the load
    refine pop_quiet hq ⟨hok, hle, ?_, hq.writeIdx.le, fun heq => hnow ?_⟩ rfl rfl rfl
    · rw [hq.writeIdx]; omega
    · rw [hq.writeIdx] at heq
      omega
  | storeWriteIdxCache op readIdx writeIdxCache =>
    obtain ⟨hok, hle, hrw, hwrite, hemp⟩ := hk
    have hq' : QueueInv P R { queue with writeIdxCache := writeIdxCache } :=
      ⟨hq.capacity_pos, hq.mask, hb, hq.writeIdx, hq.readIdx, hq.fifo, hq.readIdxCache, hq.room,
        hwrite, hq.slots⟩
    rw [popStep] at hs
    split at hs
    · rename_i heq
      simp only [Option.some.injEq, Prod.mk.injEq] at hs
      obtain ⟨rfl, rfl, rfl⟩ := hs
      rw [show (Event.popEmpty c op : Event ι α).pop = [] from rfl, List.append_nil]
      refine ⟨hq', trivial, ⟨by simp, ?_, by simp, by simp⟩, rfl, rfl, rfl, rfl⟩
      intro c' op' he
      cases he
      exact ⟨rfl, hemp heq⟩
    · rename_i hne
      rw [if_pos (by omega)] at hs
      simp only [Option.some.injEq, Prod.mk.injEq] at hs
      obtain ⟨rfl, rfl, rfl⟩ := hs
      exact pop_quiet hq' (notEmpty_inv hq hok hle (by omega) hwrite) rfl rfl rfl
  | readSlot op readIdx newReadIdx i values =>
    obtain ⟨hok, hread, hlt, hnew, hpop⟩ := hk
    -- the slot may be overwritten already, but then `readIdx` has moved
    have hread' : Read P R readIdx (i + 1) (values ++ [queue.slots (i &&& queue.mask)]) := by
      refine hread.snoc (by omega) fun hi => ?_
      rw [hq.mask]
      exact hq.slots i hi (by omega)
    cases op with
    | tryPop =>
      simp only [popStep, Option.some.injEq, Prod.mk.injEq] at hs
      obtain ⟨rfl, rfl, rfl⟩ := hs
      have hle := hread.le
      rw [hpop rfl]
      exact pop_quiet hq ⟨hok, hread', fun _ => by omega⟩ rfl rfl rfl
    | tryPopMany howmany =>
      simp only [popStep, Option.some.injEq, Prod.mk.injEq] at hs
      obtain ⟨rfl, rfl, rfl⟩ := hs
      rw [add64_of_lt (by omega)]
      have hle := hread.le
      exact pop_quiet hq (manyLoop_inv hok hread' hlt hnew fun _ => by omega) rfl rfl rfl
  | updateReadIdx op readIdx newReadIdx values =>
    obtain ⟨hok, hread, hpos⟩ := hk
    rw [popStep] at hs
    split at hs
    · -- the compare-exchange succeeds: nobody has popped since `readIdx` was loaded
      rename_i hcas
      simp only [Option.some.injEq, Prod.mk.injEq] at hs
      obtain ⟨rfl, rfl, rfl⟩ := hs
      obtain rfl : readIdx = R.length := by rw [← hcas.2, hq.readIdx]
      have hle := hread.le
      have hnew := hread.le_length
      have hlen := hread.length
      show QueueInv P (R ++ values) _ ∧ ConsumerInv P (R ++ values) _ _ ∧ _
      refine ⟨hq.popped hread, trivial, ⟨by simp, by simp, ?_, by simp⟩, rfl, rfl, rfl, rfl⟩
      · intro c' op' values' rval he
        cases he
        rw [sub64_of_le (by omega) hle, hlen]
        refine ⟨rfl, fun hne hnil => ?_⟩
        have := hpos hne
        rw [hnil, List.length_nil] at hlen
        omega
    · simp only [Option.some.injEq, Prod.mk.injEq] at hs
      obtain ⟨rfl, rfl, rfl⟩ := hs
      exact pop_quiet hq hok rfl rfl rfl
  | aborted => cases hs

/-! ### Every interleaving -/

/-- The producer calls `try_push`. -/
def Action.isPush : Action ι α → Prop
  | .callPush _ => True
  | _ => False

/-- The consumer `c` calls `try_pop` or `try_pop_many`. -/
def Action.isPop (c : ι) : Action ι α → Prop
  | .callPop c' _ => c' = c
  | _ => False

/-- The action is no call that asks for too many values. -/
def Action.ok : Action ι α → Prop
  | .callPop _ op => op.ok
  | _ => True

instance : ∀ act : Action ι α, Decidable act.ok
  | .callPush _ => inferInstanceAs (Decidable True)
  | .producer => inferInstanceAs (Decidable True)
  | .callPop _ op => inferInstanceAs (Decidable op.ok)
  | .consumer _ _ => inferInstanceAs (Decidable True)

/-- As many values are queued as there are slots. -/
def IsFull (capacity : ℕ) (es : List (Event ι α)) (_ : Sys ι α) : Prop :=
  (pushed es).length = (popped es).length + capacity

/-- No value is queued. -/
def IsEmpty (es : List (Event ι α)) (_ : Sys ι α) : Prop :=
  (pushed es).length = (popped es).length

variable [DecidableEq ι] {capacity : ℕ} {s₀ s s' : Sys ι α} {acts : List (Action ι α)}
  {act : Action ι α} {es : List (Event ι α)} {e : Event ι α}

/-- What a step of the system can be. -/
theorem sysStep_cases (hs : sysStep s act = some (s', e)) :
    (∃ value, act = .callPush value ∧ s' = { s with producer := .loadWriteIdx value } ∧ e = .call) ∨
    (∃ queue k, act = .producer ∧ tryPush s.queue s.producer = some (queue, k, e) ∧
      s' = { s with queue := queue, producer := k }) ∨
    (∃ c op, act = .callPop c op ∧
      s' = { s with consumers := Function.update s.consumers c (.loadReadIdx op) } ∧ e = .call) ∨
    (∃ c spurious queue k, act = .consumer c spurious ∧
      popStep c spurious s.queue (s.consumers c) = some (queue, k, e) ∧
      s' = { s with queue := queue, consumers := Function.update s.consumers c k }) := by
  cases act with
  | callPush value =>
    rw [sysStep] at hs
    split at hs
    · rw [Option.some.injEq, Prod.mk.injEq] at hs
      exact .inl ⟨value, rfl, hs.1.symm, hs.2.symm⟩
    · cases hs
  | producer =>
    obtain ⟨⟨queue, k, e'⟩, hk, heq⟩ := Option.map_eq_some_iff.mp hs
    rw [Prod.mk.injEq] at heq
    obtain ⟨rfl, rfl⟩ := heq
    exact .inr (.inl ⟨queue, k, rfl, hk, rfl⟩)
  | callPop c op =>
    rw [sysStep] at hs
    split at hs
    · rw [Option.some.injEq, Prod.mk.injEq] at hs
      exact .inr (.inr (.inl ⟨c, op, rfl, hs.1.symm, hs.2.symm⟩))
    · cases hs
  | consumer c spurious =>
    obtain ⟨⟨queue, k, e'⟩, hk, heq⟩ := Option.map_eq_some_iff.mp hs
    rw [Prod.mk.injEq] at heq
    obtain ⟨rfl, rfl⟩ := heq
    exact .inr (.inr (.inr ⟨c, spurious, queue, k, rfl, hk, rfl⟩))

theorem event_of_callPop {c : ι} {op : Pop} (hs : sysStep s (.callPop c op) = some (s', e)) :
    e = .call := by
  rcases sysStep_cases hs with ⟨_, hact, -⟩ | ⟨_, _, hact, -⟩ | ⟨_, _, -, -, he⟩ |
    ⟨_, _, _, _, hact, -⟩
  · cases hact
  · cases hact
  · exact he
  · cases hact

/-- The invariant of the system after the actions `acts` with the events
`es`. -/
structure SysInv (capacity : ℕ) (s₀ : Sys ι α) (acts : List (Action ι α)) (es : List (Event ι α))
    (s : Sys ι α) : Prop where
  run : run sysStep s₀ acts = some (s, es)
  capacity_eq : s.queue.capacity = capacity
  queue : QueueInv (pushed es) (popped es) s.queue
  producer : ProducerInv (pushed es) (popped es) s.queue
    (Since sysStep Action.isPush (IsFull capacity) s₀ acts) s.producer
  consumers : ∀ c, ConsumerInv (pushed es) (popped es)
    (Since sysStep (Action.isPop c) IsEmpty s₀ acts) (s.consumers c)

/-- **One step of the system.** -/
theorem SysInv.step (h : SysInv capacity s₀ acts es s)
    (hok : act.ok) (hs : sysStep s act = some (s', e))
    (hbound : (pushed (es ++ [e])).length < 2 ^ 63) :
    SysInv capacity s₀ (acts ++ [act]) (es ++ [e]) s' ∧
      Justified (Since sysStep Action.isPush (IsFull capacity) s₀ acts)
        (fun c => Since sysStep (Action.isPop c) IsEmpty s₀ acts) e := by
  have hrun : Runs.run sysStep s₀ (acts ++ [act]) = some (s', es ++ [e]) :=
    run_concat_eq_some.mpr ⟨s, es, e, h.run, hs, rfl⟩
  rcases sysStep_cases hs with ⟨value, rfl, rfl, rfl⟩ | ⟨queue, k, rfl, hk, rfl⟩ |
    ⟨c, op, rfl, rfl, rfl⟩ | ⟨c, spurious, queue, k, rfl, hk, rfl⟩
  · -- `try_push` is called
    have hpush : pushed (es ++ [Event.call]) = pushed es := by simp [Event.push]
    have hpop : popped (es ++ [Event.call]) = popped es := by simp [Event.pop]
    refine ⟨⟨hrun, h.capacity_eq, by rw [hpush, hpop]; exact h.queue, trivial, fun c => ?_⟩,
      ⟨by simp, by simp, by simp, by simp⟩⟩
    rw [hpush, hpop]
    exact (h.consumers c).mono (List.prefix_refl _) le_rfl fun hold => hold.concat id
  · -- the producer makes an access
    rw [pushed_concat] at hbound
    have hpush := pushed_concat es e
    have hnow : (pushed es).length = (popped es).length + s.queue.capacity →
        Since sysStep Action.isPush (IsFull capacity) s₀ (acts ++ [Action.producer]) := by
      intro heq
      refine Since.concat (Since.now h.run ?_) id
      rw [IsFull, heq, h.capacity_eq]
    obtain ⟨hq, hprod, hevent, hpop, hcap⟩ :=
      tryPush_inv h.queue h.producer hk hbound (fun hold => hold.concat id) hnow
    have hpop' : popped (es ++ [e]) = popped es := by rw [popped_concat, hpop, List.append_nil]
    refine ⟨⟨hrun, hcap.trans h.capacity_eq, ?_, ?_, fun c => ?_⟩,
      hevent.mono id fun _ => False.elim⟩
    · rw [hpush, hpop']; exact hq
    · rw [hpush, hpop']; exact hprod
    · rw [hpush, hpop']
      exact (h.consumers c).mono (List.prefix_append _ _) le_rfl fun hold => hold.concat id
  · -- a consumer calls
    have hpush : pushed (es ++ [Event.call]) = pushed es := by simp [Event.push]
    have hpop : popped (es ++ [Event.call]) = popped es := by simp [Event.pop]
    refine ⟨⟨hrun, h.capacity_eq, by rw [hpush, hpop]; exact h.queue, ?_, fun c' => ?_⟩,
      ⟨by simp, by simp, by simp, by simp⟩⟩
    · rw [hpush, hpop]
      exact h.producer.mono le_rfl rfl rfl rfl fun hold => hold.concat id
    · rw [hpush, hpop]
      by_cases hc : c' = c
      · subst hc
        dsimp only
        rw [Function.update_self]
        exact hok
      · dsimp only
        rw [Function.update_of_ne hc]
        exact (h.consumers c').mono (List.prefix_refl _) le_rfl fun hold =>
          hold.concat fun hcall => hc hcall.symm
  · -- a consumer makes an access
    have hnow : (pushed es).length = (popped es).length →
        Since sysStep (Action.isPop c) IsEmpty s₀ (acts ++ [Action.consumer c spurious]) :=
      fun heq => Since.concat (Since.now h.run heq) id
    obtain ⟨hq, hcons, hevent, hnopush, hcap, hcache, hslots⟩ :=
      popStep_inv h.queue (h.consumers c) hk hnow
    have hpush : pushed (es ++ [e]) = pushed es := by
      rw [pushed_concat, hnopush, List.append_nil]
    have hpop := popped_concat es e
    have hgrow : (popped es).length ≤ (popped es ++ e.pop).length := by simp
    refine ⟨⟨hrun, hcap.trans h.capacity_eq, ?_, ?_, fun c' => ?_⟩,
      hevent.mono False.elim fun c' hc => ?_⟩
    · rw [hpush, hpop]; exact hq
    · rw [hpush, hpop]
      exact h.producer.mono hgrow hcap hcache hslots fun hold => hold.concat id
    · rw [hpush, hpop]
      by_cases hc : c' = c
      · subst hc
        dsimp only
        rw [Function.update_self]
        exact hcons
      · dsimp only
        rw [Function.update_of_ne hc]
        exact (h.consumers c').mono (List.prefix_refl _) hgrow fun hold => hold.concat id
    · obtain ⟨rfl, hempty⟩ := hc
      exact hempty

/-- A new queue. -/
theorem queueInv_createQueue {slots : ℕ → α} {queue : SPMCQueue α}
    (h : createQueue capacity slots = some queue) :
    QueueInv [] [] queue ∧ queue.capacity = capacity := by
  rw [createQueue] at h
  split at h
  · cases h
  · rename_i hpos
    split at h
    · cases h
    · rename_i hpow
      split at h
      · cases h
      · rw [Option.some.injEq] at h
        subst h
        rw [not_not, Nat.and_sub_one_eq_zero_iff_isPowerOfTwo hpos] at hpow
        obtain ⟨k, rfl⟩ := hpow
        refine ⟨⟨by positivity, fun i => Nat.and_two_pow_sub_one_eq_mod i k, by simp, rfl, rfl,
          List.prefix_refl _, le_rfl, by simp, le_rfl, by simp⟩, rfl⟩

/-- **`SPMCQueue` refines a bounded FIFO** in every interleaving: the popped
values are the first of the pushed ones, at most `capacity` are queued, a push
fails only if the queue was full and a pop only if it was empty at a step of the
call, and the assertion holds. -/
theorem sysRun_fifo {slots : ℕ → α} {queue : SPMCQueue α}
    (hqueue : createQueue capacity slots = some queue)
    (hmany : ∀ act ∈ acts, act.ok)
    (hrun : run sysStep (Sys.init queue) acts = some (s, es)) (hpush : (pushed es).length < 2 ^ 63) :
    popped es <+: pushed es ∧
    (pushed es).length ≤ (popped es).length + capacity ∧
    ∀ act s' e, sysStep s act = some (s', e) →
      (e = .pushFull → Since sysStep Action.isPush (IsFull capacity) (Sys.init queue) acts) ∧
      (∀ c op, e = .popEmpty c op →
        Since sysStep (Action.isPop c) IsEmpty (Sys.init queue) acts) ∧
      (∀ c op values rval, e = .popped c op values rval →
        rval = values.length ∧ (op ≠ .tryPopMany 0 → values ≠ [])) ∧
      ∀ c, e ≠ .assertFailed c := by
  obtain ⟨hq, hcap⟩ := queueInv_createQueue hqueue
  have hinit : SysInv capacity (Sys.init queue) [] [] (Sys.init (ι := ι) queue) :=
    ⟨rfl, hcap, hq, trivial, fun _ => trivial⟩
  have hinv : SysInv capacity (Sys.init queue) acts es s := by
    -- the two bounds hold of the shorter run as well
    refine run_induction (P := fun _ _ => True)
      (fun acts es s => (∀ act ∈ acts, act.ok) → (pushed es).length < 2 ^ 63 →
        SysInv capacity (Sys.init queue) acts es s)
      (fun _ _ => hinit) ?_ (Always.of_forall fun _ _ _ => trivial) hrun hmany hpush
    intro acts es s act s' e hinv _ hs hmany hbound
    have hprev : (pushed es).length < 2 ^ 63 := by
      rw [pushed_concat, List.length_append] at hbound
      omega
    exact ((hinv (fun act hact => hmany act (List.mem_append_left _ hact)) hprev).step
      (hmany act (by simp)) hs hbound).1
  refine ⟨hinv.queue.fifo, ?_, fun act s' e hs => ?_⟩
  · have h1 := hinv.queue.room
    have h2 := hinv.queue.readIdxCache
    rw [hinv.capacity_eq] at h1
    omega
  · -- a step that ends a call pushes nothing, or is a push
    have hjust : e ≠ .call → e.push = [] →
        Justified (Since sysStep Action.isPush (IsFull capacity) (Sys.init queue) acts)
          (fun c => Since sysStep (Action.isPop c) IsEmpty (Sys.init queue) acts) e := by
      intro hcall hnopush
      refine (hinv.step ?_ hs ?_).2
      · cases act with
        | callPop c op => exact absurd (event_of_callPop hs) hcall
        | callPush | producer | consumer => trivial
      · rw [pushed_concat, hnopush, List.append_nil]
        exact hpush
    refine ⟨fun he => ?_, fun c op he => ?_, fun c op values rval he => ?_, fun c he => ?_⟩
    · exact (hjust (by rw [he]; simp) (by rw [he]; rfl)).full he
    · exact (hjust (by rw [he]; simp) (by rw [he]; rfl)).empty c op he
    · exact (hjust (by rw [he]; simp) (by rw [he]; rfl)).values c op values rval he
    · exact (hjust (by rw [he]; simp) (by rw [he]; rfl)).noAssert c he

/-- Two consumers race for one value: both load `readIdx`, one pops, the other
one's compare-exchange fails and it then finds the queue empty. -/
def race : List (Action Bool ℕ) :=
  [.callPush 7, .producer, .producer, .producer, .producer, .callPop true .tryPop,
    .consumer true false, .callPop false (.tryPopMany 3), .consumer false false,
    .consumer true false, .consumer true false, .consumer true false, .consumer false false,
    .consumer false false, .consumer true false, .consumer true false, .consumer false false,
    .consumer false false, .consumer false false, .consumer false false, .consumer false false]

theorem sysRun_fifo_race :
    ∃ queue s es, createQueue 2 (fun _ => 0) = some queue ∧
      run sysStep (Sys.init queue) race = some (s, es) ∧ popped es = [7] ∧
      popped es <+: pushed es := by
  have hrun : (run sysStep (Sys.init ⟨2, 1, 0, 0, 0, 0, fun _ => 0⟩) race).isSome := by decide
  have hqueue : createQueue 2 (fun _ => 0) = some ⟨2, 1, 0, 0, 0, 0, fun _ => 0⟩ := rfl
  have hsome := (Option.some_get hrun).symm
  exact ⟨_, _, _, hqueue, hsome, by decide, (sysRun_fifo hqueue (by decide) hsome (by decide)).1⟩

end Spmc
