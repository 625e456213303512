/-
No thread holds up another one in `SPMCQueue`.

A thread can always make its next access, whatever the others do or leave undone.  A push
makes at most seven accesses.  A pop goes round its loop once more only when its
compare-exchange failed, and this takes a spurious failure, or a value that another consumer
has popped since this turn of the loop loaded `readIdx`: a value is charged with one turn at
most.

* `tryPush_rank`, `popStep_turn` — one access;
* `Turns.step` — the turns of one call to pop;
* `sysRun_progress` — every interleaving.
-/
import LibRtpSynth.SpmcQueueFifo

open CWords Runs

namespace Spmc

variable {ι α : Type} {P R : List α} {queue queue' : SPMCQueue α}

/-! ### The producer -/

/-- The accesses left in `try_push`, at most. -/
def Producer.rank : Producer α → ℕ
  | .idle => 0
  | .loadWriteIdx _ => 7
  | .checkSize .. => 6
  | .loadReadIdx .. => 5
  | .storeReadIdxCache .. => 4
  | .recheckSize .. => 3
  | .writeSlot .. => 2
  | .storeWriteIdx .. => 1

/-- An access of `try_push` brings it nearer to its end. -/
theorem tryPush_rank {k k' : Producer α} {e : Event ι α} (h : tryPush queue k = some (queue', k', e)) :
    k'.rank + 1 ≤ k.rank := by
  cases k with
  | idle => cases h
  | loadWriteIdx | loadReadIdx | storeReadIdxCache | writeSlot | storeWriteIdx =>
    simp only [tryPush, Option.some.injEq, Prod.mk.injEq] at h
    obtain ⟨-, rfl, -⟩ := h
    exact le_refl _
  | checkSize | recheckSize =>
    rw [tryPush] at h
    split at h <;>
    · simp only [Option.some.injEq, Prod.mk.injEq] at h
      obtain ⟨-, rfl, -⟩ := h
      simp [Producer.rank]

/-- A call to `try_push` can go on. -/
theorem tryPush_isSome (queue : SPMCQueue α) {k : Producer α} (hk : k ≠ .idle) :
    ∃ p : SPMCQueue α × Producer α × Event ι α, tryPush queue k = some p := by
  cases k with
  | idle => exact absurd rfl hk
  | loadWriteIdx | loadReadIdx | storeReadIdxCache | writeSlot | storeWriteIdx => exact ⟨_, rfl⟩
  | checkSize | recheckSize =>
    rw [tryPush]
    split <;> exact ⟨_, rfl⟩

/-- The producer pops nothing. -/
theorem tryPush_popped {k k' : Producer α} {c : ι} {op : Pop} {values : List α} {rval : ℕ} :
    tryPush queue k ≠ some (queue', k', .popped c op values rval) := by
  intro h
  cases k with
  | idle | loadWriteIdx | loadReadIdx | storeReadIdxCache | writeSlot | storeWriteIdx => cases h
  | checkSize | recheckSize =>
    rw [tryPush] at h
    split at h <;> cases h

/-! ### A consumer -/

/-- How many slots a turn of the loop reads, at most. -/
def Pop.want : Pop → ℕ
  | .tryPop => 1
  | .tryPopMany howmany => howmany

/-- The call that a consumer is in. -/
def Consumer.op : Consumer α → Option Pop
  | .idle | .aborted => none
  | .loadReadIdx op | .loadWriteIdxCache op _ | .loadWriteIdx op _ | .storeWriteIdxCache op _ _
  | .readSlot op _ _ _ _ | .updateReadIdx op _ _ _ => some op

/-- The value of `readIdx` that this turn of the loop has loaded. -/
def Consumer.loaded : Consumer α → Option ℕ
  | .idle | .aborted | .loadReadIdx _ => none
  | .loadWriteIdxCache _ readIdx | .loadWriteIdx _ readIdx | .storeWriteIdxCache _ readIdx _
  | .readSlot _ readIdx _ _ _ | .updateReadIdx _ readIdx _ _ => some readIdx

/-- The accesses left in this turn of the loop, at most. -/
def Consumer.rank : Consumer α → ℕ
  | .idle | .aborted => 0
  | .loadReadIdx op => op.want + 5
  | .loadWriteIdxCache op _ => op.want + 4
  | .loadWriteIdx op _ => op.want + 3
  | .storeWriteIdxCache op _ _ => op.want + 2
  | .readSlot _ _ newReadIdx i _ => newReadIdx - i + 1
  | .updateReadIdx .. => 1

/-- What an access does to the turn of the loop: it goes on with it; it begins another one,
after a spurious failure or as others have popped; it ends the call. -/
inductive Turn (R : List α) (c : ι) (spurious : Bool) (k k' : Consumer α) (e : Event ι α) : Prop
  | on (hop : k'.op = k.op) (hrank : k'.rank + 1 ≤ k.rank)
      (hloaded : k'.loaded = k.loaded ∨ k.loaded = none ∧ k'.loaded = some R.length)
      (he : e.pop = [])
  | again (op : Pop) (readIdx : ℕ) (hop : k.op = some op) (hk' : k' = .loadReadIdx op)
      (hloaded : k.loaded = some readIdx) (hrank : 1 ≤ k.rank)
      (hwhy : spurious = true ∨ readIdx < R.length) (he : e.pop = [])
  | done (hk' : k' = .idle) (hrank : 1 ≤ k.rank) (hthis : ∀ c' op values rval,
      e = .popped c' op values rval → c' = c)

theorem manyLoop_facts (howmany readIdx newReadIdx i : ℕ) (values : List α) :
    (manyLoop howmany readIdx newReadIdx i values).op = some (.tryPopMany howmany) ∧
      (manyLoop howmany readIdx newReadIdx i values).loaded = some readIdx ∧
      (manyLoop howmany readIdx newReadIdx i values).rank ≤ newReadIdx - i + 1 := by
  rw [manyLoop]
  split
  · exact ⟨rfl, rfl, le_refl _⟩
  · exact ⟨rfl, rfl, Nat.le_add_left 1 _⟩

theorem add64_le (a b : ℕ) : add64 a b ≤ a + b := Nat.mod_le _ _

theorem notEmpty_facts (op : Pop) (readIdx writeIdxCache : ℕ) :
    (notEmpty op readIdx writeIdxCache : Consumer α).op = some op ∧
      (notEmpty op readIdx writeIdxCache : Consumer α).loaded = some readIdx ∧
      (notEmpty op readIdx writeIdxCache : Consumer α).rank ≤ op.want + 1 := by
  cases op with
  | tryPop =>
    have := add64_le readIdx 1
    refine ⟨rfl, rfl, ?_⟩
    show add64 readIdx 1 - readIdx + 1 ≤ 1 + 1
    omega
  | tryPopMany howmany =>
    have hle := add64_le readIdx howmany
    obtain ⟨hop, hloaded, hrank⟩ := manyLoop_facts (α := α) howmany readIdx
      (if add64 readIdx howmany > writeIdxCache then writeIdxCache else add64 readIdx howmany) readIdx []
    refine ⟨hop, hloaded, hrank.trans ?_⟩
    show _ ≤ howmany + 1
    split <;> omega

/-- **One access of a pop**, seen from the turn of the loop that it belongs to. -/
theorem popStep_turn {empty : Prop} {c : ι} {spurious : Bool} {k k' : Consumer α} {e : Event ι α}
    (hq : QueueInv P R queue) (hk : ConsumerInv P R empty k)
    (hs : popStep c spurious queue k = some (queue', k', e)) : Turn R c spurious k k' e := by
  cases k with
  | idle => cases hs
  | aborted => cases hs
  | loadReadIdx op =>
    simp only [popStep, Option.some.injEq, Prod.mk.injEq] at hs
    obtain ⟨-, rfl, rfl⟩ := hs
    exact .on rfl (le_refl _) (.inr ⟨rfl, congrArg some hq.readIdx⟩) rfl
  | loadWriteIdxCache op readIdx =>
    rw [popStep] at hs
    split at hs
    · simp only [Option.some.injEq, Prod.mk.injEq] at hs
      obtain ⟨-, rfl, rfl⟩ := hs
      exact .on rfl (le_refl _) (.inl rfl) rfl
    · simp only [Option.some.injEq, Prod.mk.injEq] at hs
      obtain ⟨-, rfl, rfl⟩ := hs
      obtain ⟨hop, hloaded, hrank⟩ := notEmpty_facts (α := α) op readIdx queue.writeIdxCache
      refine .on hop ?_ (.inl hloaded) rfl
      show _ ≤ op.want + 4
      omega
  | loadWriteIdx op readIdx =>
    simp only [popStep, Option.some.injEq, Prod.mk.injEq] at hs
    obtain ⟨-, rfl, rfl⟩ := hs
    exact .on rfl (le_refl _) (.inl rfl) rfl
  | storeWriteIdxCache op readIdx writeIdxCache =>
    obtain ⟨-, -, hrw, -, -⟩ := hk
    rw [popStep] at hs
    split at hs
    · simp only [Option.some.injEq, Prod.mk.injEq] at hs
      obtain ⟨-, rfl, rfl⟩ := hs
      refine .done rfl (Nat.le_add_left 1 _) ?_
      intro c' op' values' rval he
      cases he
    · rw [if_pos (by omega)] at hs
      simp only [Option.some.injEq, Prod.mk.injEq] at hs
      obtain ⟨-, rfl, rfl⟩ := hs
      obtain ⟨hop, hloaded, hrank⟩ := notEmpty_facts (α := α) op readIdx writeIdxCache
      refine .on hop ?_ (.inl hloaded) rfl
      show _ ≤ op.want + 2
      omega
  | readSlot op readIdx newReadIdx i values =>
    obtain ⟨-, -, hlt, hnew, -⟩ := hk
    have hb := hq.bound
    cases op with
    | tryPop =>
      simp only [popStep, Option.some.injEq, Prod.mk.injEq] at hs
      obtain ⟨-, rfl, rfl⟩ := hs
      refine .on rfl ?_ (.inl rfl) rfl
      show 1 + 1 ≤ newReadIdx - i + 1
      omega
    | tryPopMany howmany =>
      simp only [popStep, Option.some.injEq, Prod.mk.injEq] at hs
      obtain ⟨-, rfl, rfl⟩ := hs
      rw [add64_of_lt (by omega)]
      obtain ⟨hop, hloaded, hrank⟩ := manyLoop_facts howmany readIdx newReadIdx (i + 1)
        (values ++ [queue.slots (i &&& queue.mask)])
      refine .on hop ?_ (.inl hloaded) rfl
      show _ ≤ newReadIdx - i + 1
      omega
  | updateReadIdx op readIdx newReadIdx values =>
    obtain ⟨-, hread, -⟩ := hk
    rw [popStep] at hs
    split at hs
    · simp only [Option.some.injEq, Prod.mk.injEq] at hs
      obtain ⟨-, rfl, rfl⟩ := hs
      refine .done rfl (le_refl _) ?_
      intro c' op' values' rval he
      cases he
      rfl
    · rename_i hcas
      simp only [Option.some.injEq, Prod.mk.injEq] at hs
      obtain ⟨-, rfl, rfl⟩ := hs
      refine .again op readIdx rfl rfl rfl (le_refl _) ?_ rfl
      -- `readIdx` has moved, and it moves by what is popped
      have hle := hread.readIdx_le
      rw [hq.readIdx] at hcas
      cases spurious with
      | true => exact .inl rfl
      | false =>
        refine .inr (lt_of_le_of_ne hle fun heq => hcas ⟨rfl, heq.symm⟩)

/-- What a turn has loaded is how much was popped then. -/
theorem ConsumerInv.loaded_le {empty : Prop} {k : Consumer α} (h : ConsumerInv P R empty k) :
    ∀ readIdx, k.loaded = some readIdx → readIdx ≤ R.length := by
  intro readIdx hloaded
  cases k with
  | idle | aborted | loadReadIdx => cases hloaded
  | loadWriteIdxCache | loadWriteIdx =>
    cases hloaded
    exact h.2
  | storeWriteIdxCache =>
    cases hloaded
    exact h.2.1
  | readSlot | updateReadIdx =>
    cases hloaded
    exact h.2.1.readIdx_le

/-- What an access of a consumer shows is about that consumer. -/
theorem popStep_popped {spurious : Bool} {k k' : Consumer α} {c c' : ι} {op' : Pop} {values : List α}
    {rval : ℕ} (hs : popStep c spurious queue k = some (queue', k', .popped c' op' values rval)) :
    c' = c := by
  cases k with
  | idle | aborted => cases hs
  | loadReadIdx | loadWriteIdx => cases hs
  | loadWriteIdxCache | storeWriteIdxCache =>
    rw [popStep] at hs
    repeat' split at hs
    all_goals cases hs
  | readSlot op => cases op <;> cases hs
  | updateReadIdx =>
    rw [popStep] at hs
    split at hs <;> cases hs
    rfl

/-- A call to pop can go on. -/
theorem popStep_isSome {empty : Prop} (c : ι) (spurious : Bool) {k : Consumer α}
    (hk : ConsumerInv P R empty k) (hidle : k ≠ .idle) : ∃ p, popStep c spurious queue k = some p := by
  cases k with
  | idle => exact absurd rfl hidle
  | aborted => exact hk.elim
  | loadReadIdx | loadWriteIdx => exact ⟨_, rfl⟩
  | loadWriteIdxCache =>
    rw [popStep]
    split <;> exact ⟨_, rfl⟩
  | storeWriteIdxCache op readIdx writeIdxCache =>
    rw [popStep]
    split
    · exact ⟨_, rfl⟩
    · split <;> exact ⟨_, rfl⟩
  | readSlot op => cases op <;> exact ⟨_, rfl⟩
  | updateReadIdx =>
    rw [popStep]
    split <;> exact ⟨_, rfl⟩

/-! ### Every interleaving -/

variable [DecidableEq ι] {capacity : ℕ} {u s s' : Sys ι α} {earlier acts : List (Action ι α)}
  {act : Action ι α} {before es : List (Event ι α)} {e : Event ι α} {c : ι} {op : Pop}

/-- The producer makes an access. -/
def Action.ofProducer : Action ι α → Bool
  | .producer => true
  | _ => false

/-- The consumer `c` makes an access. -/
def Action.ofConsumer (c : ι) : Action ι α → Bool
  | .consumer c' _ => c' = c
  | _ => false

instance (c : ι) : ∀ act : Action ι α, Decidable (act.isPop c)
  | .callPush _ => inferInstanceAs (Decidable False)
  | .producer => inferInstanceAs (Decidable False)
  | .callPop c' _ => inferInstanceAs (Decidable (c' = c))
  | .consumer _ _ => inferInstanceAs (Decidable False)

/-- The consumer `c` makes an access in which a compare-exchange fails spuriously. -/
def Action.isSpurious (c : ι) : Action ι α → Bool
  | .consumer c' spurious => c' = c && spurious
  | _ => false

/-- The values that others than `c` pop. -/
def Event.popOther (c : ι) : Event ι α → List α
  | .popped c' _ values _ => if c' = c then [] else values
  | _ => []

/-- The same over a run. -/
def poppedByOthers (c : ι) (es : List (Event ι α)) : List α := es.flatMap (Event.popOther c)

@[simp] theorem poppedByOthers_concat (c : ι) (es : List (Event ι α)) (e : Event ι α) :
    poppedByOthers c (es ++ [e]) = poppedByOthers c es ++ e.popOther c := by
  simp [poppedByOthers]

theorem popOther_eq_nil (h : e.pop = []) : e.popOther c = [] := by
  cases e with
  | popped c' op values rval =>
    obtain rfl : values = [] := h
    exact ite_self []
  | _ => rfl

theorem popOther_eq_pop (h : ∀ op values rval, e ≠ .popped c op values rval) :
    e.popOther c = e.pop := by
  cases e with
  | popped c' op values rval =>
    have hne : c' ≠ c := by
      rintro rfl
      exact h op values rval rfl
    exact if_neg hne
  | _ => rfl

/-- The accesses of a push, as long as it is not called again. -/
theorem push_accesses (hrun : run sysStep u acts = some (s, es)) (hcall : ∀ act ∈ acts, ¬ act.isPush) :
    acts.countP Action.ofProducer + s.producer.rank ≤ u.producer.rank := by
  refine run_induction (P := fun _ act => ¬ act.isPush)
    (fun acts _ s => acts.countP Action.ofProducer + s.producer.rank ≤ u.producer.rank)
    ?_ ?_ (Always.of_forall fun act hact _ => hcall act hact) hrun
  · exact (Nat.zero_add _).le
  · intro acts es v act v' e ih hact hs
    rw [List.countP_append]
    rcases sysStep_cases hs with ⟨value, rfl, -, -⟩ | ⟨queue, k, rfl, hk, rfl⟩ |
      ⟨c, op, rfl, rfl, -⟩ | ⟨c, spurious, queue, k, rfl, hk, rfl⟩
    · exact absurd trivial hact
    · have hrank := tryPush_rank hk
      show acts.countP _ + 1 + k.rank ≤ _
      omega
    · exact ih
    · exact ih

/-- The turns of a call to `op` by `c` since it was made, when `base` values had been popped:
`lost` counts the turns that others took a value from.  While the call goes on, each of these
turns is charged with a value of its own that was popped before `readIdx` was loaded for this
turn. -/
structure Turns (c : ι) (op : Pop) (base lost : ℕ) (acts : List (Action ι α))
    (es : List (Event ι α)) (R : List α) (k : Consumer α) : Prop where
  accesses : acts.countP (Action.ofConsumer c) + k.rank ≤
    (op.want + 5) * (1 + acts.countP (Action.isSpurious c) + lost)
  lost_le : lost ≤ (poppedByOthers c es).length
  op_eq : k ≠ .idle → k.op = some op
  charged : k ≠ .idle → base + lost ≤ k.loaded.getD R.length ∧
    R.length = base + (poppedByOthers c es).length

/-- The call is made. -/
theorem turns_call (R : List α) :
    Turns c op R.length 0 [] [] R (.loadReadIdx op) where
  accesses := by simp [Consumer.rank]
  lost_le := Nat.zero_le _
  op_eq _ := rfl
  charged _ := ⟨le_refl _, rfl⟩

variable {base lost : ℕ}

/-- Another thread makes a step. -/
theorem Turns.other {k : Consumer α} (h : Turns c op base lost acts es R k)
    (hact : act.ofConsumer c = false) (hspurious : act.isSpurious c = false)
    (he : ∀ op values rval, e ≠ .popped c op values rval) :
    Turns c op base lost (acts ++ [act]) (es ++ [e]) (R ++ e.pop) k := by
  have hother := popOther_eq_pop he
  refine ⟨?_, ?_, h.op_eq, fun hk => ?_⟩
  · rw [List.countP_append, List.countP_append, List.countP_singleton, List.countP_singleton, hact,
      hspurious]
    exact h.accesses
  · rw [poppedByOthers_concat, List.length_append]
    exact h.lost_le.trans (Nat.le_add_right _ _)
  · obtain ⟨hlost, hR⟩ := h.charged hk
    rw [poppedByOthers_concat, hother, List.length_append, List.length_append, hR]
    refine ⟨hlost.trans ?_, by omega⟩
    cases k.loaded with
    | some readIdx => exact le_refl _
    | none =>
      simp only [Option.getD_none]
      omega

theorem countP_isSpurious {spurious : Bool} :
    [(Action.consumer c spurious : Action ι α)].countP (Action.isSpurious c) = if spurious then 1 else 0 := by
  cases spurious <;> simp [Action.isSpurious]

/-- The consumer makes an access. -/
theorem Turns.own {spurious : Bool} {k k' : Consumer α} (h : Turns c op base lost acts es R k)
    (hle : ∀ readIdx, k.loaded = some readIdx → readIdx ≤ R.length) (hidle : k ≠ .idle)
    (hturn : Turn R c spurious k k' e) :
    ∃ lost', Turns c op base lost' (acts ++ [.consumer c spurious]) (es ++ [e]) (R ++ e.pop) k' := by
  obtain ⟨hlost, hR⟩ := h.charged hidle
  have hacc := h.accesses
  have hcount : [(Action.consumer c spurious : Action ι α)].countP (Action.ofConsumer c) = 1 := by
    simp [Action.ofConsumer]
  have hmore : (op.want + 5) * (1 + acts.countP (Action.isSpurious c) + lost) ≤ (op.want + 5) *
      (1 + (acts ++ [Action.consumer c spurious]).countP (Action.isSpurious c) + lost) := by
    refine Nat.mul_le_mul_left _ ?_
    rw [List.countP_append]
    omega
  cases hturn with
  | on hop hrank hloaded he =>
    refine ⟨lost, ⟨?_, ?_, fun _ => hop.trans (h.op_eq hidle), fun _ => ?_⟩⟩
    · refine le_trans ?_ hmore
      rw [List.countP_append, hcount]
      omega
    · rw [poppedByOthers_concat, popOther_eq_nil he, List.append_nil]
      exact h.lost_le
    · rw [poppedByOthers_concat, popOther_eq_nil he, he, List.append_nil, List.append_nil]
      refine ⟨?_, hR⟩
      rcases hloaded with hsame | ⟨hnone, hnow⟩
      · rw [hsame]
        exact hlost
      · rw [hnone] at hlost
        rw [hnow]
        exact hlost
  | again op' readIdx hop hk' hloaded hrank hwhy he =>
    subst hk'
    obtain rfl : op' = op := by
      rw [h.op_eq hidle] at hop
      exact (Option.some.inj hop).symm
    rw [hloaded, Option.getD_some] at hlost
    have hread := hle readIdx hloaded
    have hrest : ∀ lost', base + lost' ≤ R.length →
        acts.countP (Action.ofConsumer c) + 1 + (op'.want + 5) ≤ (op'.want + 5) *
          (1 + (acts ++ [Action.consumer c spurious]).countP (Action.isSpurious c) + lost') →
        Turns c op' base lost' (acts ++ [.consumer c spurious]) (es ++ [e]) (R ++ e.pop)
          (.loadReadIdx op') := by
      intro lost' hlost' hacc'
      rw [he, List.append_nil]
      have hother : poppedByOthers c (es ++ [e]) = poppedByOthers c es := by
        rw [poppedByOthers_concat, popOther_eq_nil he, List.append_nil]
      refine ⟨?_, ?_, fun _ => rfl, fun _ => ⟨hlost', hother ▸ hR⟩⟩
      · rw [List.countP_append, hcount]
        exact hacc'
      · rw [hother]
        omega
    have hsplit : ∀ x : ℕ, (op'.want + 5) * (x + 1) = (op'.want + 5) * x + (op'.want + 5) :=
      fun x => Nat.mul_succ _ x
    cases spurious with
    | true =>
      refine ⟨lost, hrest lost (by omega) ?_⟩
      have := hsplit (1 + acts.countP (Action.isSpurious c) + lost)
      rw [List.countP_append, countP_isSpurious, if_pos rfl,
        show 1 + (acts.countP (Action.isSpurious c) + 1) + lost =
          1 + acts.countP (Action.isSpurious c) + lost + 1 by omega]
      omega
    | false =>
      have hmoved := hwhy.resolve_left Bool.false_ne_true
      refine ⟨lost + 1, hrest (lost + 1) (by omega) ?_⟩
      have := hsplit (1 + acts.countP (Action.isSpurious c) + lost)
      rw [List.countP_append, countP_isSpurious, if_neg Bool.false_ne_true,
        show 1 + (acts.countP (Action.isSpurious c) + 0) + (lost + 1) =
          1 + acts.countP (Action.isSpurious c) + lost + 1 by omega]
      omega
  | done hk' hrank hthis =>
    subst hk'
    refine ⟨lost, ⟨?_, ?_, fun hne => absurd rfl hne, fun hne => absurd rfl hne⟩⟩
    · refine le_trans ?_ hmore
      rw [List.countP_append, hcount]
      show _ + 1 + 0 ≤ _
      omega
    · rw [poppedByOthers_concat, List.length_append]
      exact h.lost_le.trans (Nat.le_add_right _ _)

/-- The invariant after a run that begins with a new queue. -/
theorem sysInv_of_run {slots : ℕ → α} {queue : SPMCQueue α}
    (hqueue : createQueue capacity slots = some queue) (hok : ∀ act ∈ acts, act.ok)
    (hrun : run sysStep (Sys.init queue) acts = some (s, es)) (hbound : (pushed es).length < 2 ^ 63) :
    SysInv capacity (Sys.init queue) acts es s := by
  obtain ⟨hq, hcap⟩ := queueInv_createQueue hqueue
  refine run_induction (P := fun _ _ => True)
    (fun acts es s => (∀ act ∈ acts, act.ok) → (pushed es).length < 2 ^ 63 →
      SysInv capacity (Sys.init queue) acts es s)
    (fun _ _ => ⟨rfl, hcap, hq, trivial, fun _ => trivial⟩) ?_ (Always.of_forall fun _ _ _ => trivial)
    hrun hok hbound
  intro acts es s act s' e hinv _ hs hok hbound
  have hprev : (pushed es).length < 2 ^ 63 := by
    rw [pushed_concat, List.length_append] at hbound
    omega
  exact ((hinv (fun act hact => hok act (List.mem_append_left _ hact)) hprev).step
    (hok act (by simp)) hs hbound).1

/-- **The turns of a call**, step by step. -/
theorem Turns.step {s₀ : Sys ι α} (hinv : SysInv capacity s₀ earlier before s)
    (h : Turns c op base lost acts es (popped before) (s.consumers c)) (hcall : ¬ act.isPop c)
    (hs : sysStep s act = some (s', e)) :
    ∃ lost', Turns c op base lost' (acts ++ [act]) (es ++ [e]) (popped (before ++ [e])) (s'.consumers c) := by
  rw [popped_concat]
  rcases sysStep_cases hs with ⟨value, rfl, rfl, rfl⟩ | ⟨queue, k, rfl, hk, rfl⟩ |
    ⟨c', op', rfl, rfl, rfl⟩ | ⟨c', spurious, queue, k, rfl, hk, rfl⟩
  · exact ⟨lost, h.other rfl rfl nofun⟩
  · exact ⟨lost, h.other rfl rfl fun op values rval he => tryPush_popped (he ▸ hk)⟩
  · refine ⟨lost, ?_⟩
    have hne : c ≠ c' := fun heq => hcall heq.symm
    dsimp only
    rw [Function.update_of_ne hne]
    exact h.other rfl rfl nofun
  · dsimp only
    by_cases hc : c' = c
    · subst hc
      rw [Function.update_self]
      have hidle : s.consumers c' ≠ .idle := by
        intro hidle
        rw [hidle] at hk
        cases hk
      exact h.own (hinv.consumers c').loaded_le hidle (popStep_turn hinv.queue (hinv.consumers c') hk)
    · rw [Function.update_of_ne (Ne.symm hc)]
      refine ⟨lost, h.other ?_ ?_ ?_⟩
      · simpa [Action.ofConsumer] using hc
      · simp [Action.isSpurious, hc]
      · rintro op' values rval rfl
        exact hc (popStep_popped hk).symm

theorem turns_of_run {s₀ v : Sys ι α} (hinv : SysInv capacity s₀ earlier before u)
    (hv : sysStep u (.callPop c op) = some (v, .call)) (hop : (Action.callPop c op : Action ι α).ok)
    (hok : ∀ act ∈ acts, act.ok) (hcall : ∀ act ∈ acts, ¬ act.isPop c) (hrun : run sysStep v acts = some (s, es))
    (hbound : (pushed (before ++ .call :: es)).length < 2 ^ 63) :
    ∃ lost, Turns c op (popped before).length lost acts es (popped (before ++ .call :: es))
      (s.consumers c) := by
  refine (run_induction (P := fun _ act => ¬ act.isPop c)
    (fun acts es s => (∀ act ∈ acts, act.ok) → (pushed (before ++ .call :: es)).length < 2 ^ 63 →
      SysInv capacity s₀ (earlier ++ .callPop c op :: acts) (before ++ .call :: es) s ∧
      ∃ lost, Turns c op (popped before).length lost acts es (popped (before ++ .call :: es))
        (s.consumers c))
    ?_ ?_ (Always.of_forall fun act hact _ => hcall act hact) hrun hok hbound).2
  · intro _ hbound
    refine ⟨(hinv.step hop hv hbound).1, 0, ?_⟩
    have hk : v.consumers c = .loadReadIdx op := by
      rw [sysStep] at hv
      split at hv
      · rw [Option.some.injEq, Prod.mk.injEq] at hv
        rw [← hv.1]
        exact Function.update_self _ _ _
      · cases hv
    rw [popped_concat, show (Event.call : Event ι α).pop = [] from rfl, List.append_nil, hk]
    exact turns_call _
  · intro acts es w act w' e ih hact hs hok hbound
    rw [← List.cons_append, ← List.append_assoc] at hbound ⊢
    rw [← List.cons_append, ← List.append_assoc]
    have hprev : (pushed (before ++ .call :: es)).length < 2 ^ 63 := by
      rw [pushed_concat, List.length_append] at hbound
      omega
    obtain ⟨hw, lost, hturns⟩ := ih (fun act hact => hok act (List.mem_append_left _ hact)) hprev
    exact ⟨(hw.step (hok act (by simp)) hs hbound).1, hturns.step hw hact hs⟩

/-- **Progress.**  In every interleaving, at any moment, a thread that is in a call can make its
next access; a push makes at most seven accesses; and a pop makes no more than those of one turn
of its loop, for the first turn, for each of its spurious failures, and for each value that
others have popped since its call. -/
theorem sysRun_progress {slots : ℕ → α} {queue : SPMCQueue α}
    (hqueue : createQueue capacity slots = some queue) (hok : ∀ act ∈ acts, act.ok)
    (hrun : run sysStep (Sys.init queue) acts = some (s, es)) (hbound : (pushed es).length < 2 ^ 63) :
    (s.producer ≠ .idle → (sysStep s .producer).isSome) ∧
    (∀ c spurious, s.consumers c ≠ .idle → (sysStep s (.consumer c spurious)).isSome) ∧
    (∀ earlier value later, acts = earlier ++ .callPush value :: later →
      (∀ act ∈ later, ¬ act.isPush) → later.countP Action.ofProducer ≤ 7) ∧
    ∀ earlier c op later, acts = earlier ++ .callPop c op :: later →
      (∀ act ∈ later, ¬ act.isPop c) →
      later.countP (Action.ofConsumer c) ≤ (op.want + 5) *
        (1 + later.countP (Action.isSpurious c) +
          (poppedByOthers c (es.drop (earlier.length + 1))).length) := by
  have hinv := sysInv_of_run hqueue hok hrun hbound
  refine ⟨fun hidle => ?_, fun c spurious hidle => ?_, ?_, ?_⟩
  · obtain ⟨p, hp⟩ := tryPush_isSome (ι := ι) s.queue hidle
    rw [sysStep, hp]
    rfl
  · obtain ⟨p, hp⟩ : ∃ p, popStep c spurious s.queue (s.consumers c) = some p :=
      popStep_isSome c spurious (hinv.consumers c) hidle
    rw [sysStep, hp]
    rfl
  · rintro earlier value later rfl hcall
    obtain ⟨u, before, rest, -, hrest, rfl⟩ := run_append_eq_some.mp hrun
    obtain ⟨v, e, during, hv, hlater, rfl⟩ := run_cons_eq_some.mp hrest
    have hk : v.producer = .loadWriteIdx value := by
      rw [sysStep] at hv
      split at hv
      · rw [Option.some.injEq, Prod.mk.injEq] at hv
        rw [← hv.1]
      · cases hv
    have hcount := push_accesses hlater hcall
    rw [hk] at hcount
    exact (Nat.le_add_right _ _).trans hcount
  · rintro earlier c op later rfl hcall
    obtain ⟨u, before, rest, hu, hrest, rfl⟩ := run_append_eq_some.mp hrun
    obtain ⟨v, e, during, hv, hlater, rfl⟩ := run_cons_eq_some.mp hrest
    obtain rfl : e = .call := event_of_callPop hv
    have hprev : (pushed before).length < 2 ^ 63 := by
      rw [pushed, List.flatMap_append, List.length_append] at hbound
      exact (Nat.le_add_right _ _).trans_lt hbound
    have hu' := sysInv_of_run hqueue (fun act hact => hok act (List.mem_append_left _ hact)) hu hprev
    obtain ⟨lost, hturns⟩ := turns_of_run hu' hv (hok (.callPop c op) (by simp))
      (fun act hact => hok act (by simp [hact])) hcall hlater hbound
    rw [← run_length hu, List.drop_length_add_append, List.drop_one, List.tail_cons]
    refine (Nat.le_add_right _ _).trans (hturns.accesses.trans (Nat.mul_le_mul_left _ ?_))
    have := hturns.lost_le
    omega

/-- In the race of two consumers the slower one makes eight accesses, and the other one has
popped one value meanwhile. -/
theorem sysRun_progress_race :
    ∃ queue s es, createQueue 2 (fun _ => 0) = some queue ∧
      run sysStep (Sys.init queue) race = some (s, es) ∧
      (race.drop 8).countP (Action.ofConsumer false) = 8 ∧
      (race.drop 8).countP (Action.ofConsumer false) ≤ (3 + 5) * (1 + 0 + 1) := by
  have hrun : (run sysStep (Sys.init ⟨2, 1, 0, 0, 0, 0, fun _ => 0⟩) race).isSome := by decide
  have hqueue : createQueue 2 (fun _ => 0) = some ⟨2, 1, 0, 0, 0, 0, fun _ => 0⟩ := rfl
  have hsome := (Option.some_get hrun).symm
  refine ⟨_, _, _, hqueue, hsome, by decide, ?_⟩
  exact (sysRun_progress hqueue (by decide) hsome (by decide)).2.2.2 (race.take 7) false (.tryPopMany 3)
    (race.drop 8) rfl (by decide)

end Spmc
