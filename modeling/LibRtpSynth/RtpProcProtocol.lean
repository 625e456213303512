/-
The command protocol of `RtpProc`: any number of clients against the worker.

The invariant has four parts, each about its own share of the state: the commands in
memory and who has them (`Memory`), the one waiter (`WaiterInv`), the numbers of the
calls (`CallsInv`) and the end of the worker (`EndInv`).

* `sysRun_commands` — nothing is lost, repeated or mixed up.
-/
import LibRtpSynth.RtpProcClients
import LibRtpSynth.RtpProcWorker

open RtpSync Runs

namespace RtpProc

/-! ### Commands in memory -/

section memory

/-- The commands in use, each at its own address: `cur` is in the hands of the worker,
`batch` are those it has detached, `queue` those pushed since, and `own` are those that
the clients have not sent yet. -/
structure Memory (heap : ℕ → Option (Cell Sent)) (cmdq : Cmdq) (rest : Option ℕ)
    (own : ℕ → Option (ℕ × Sent)) (cur : Option (ℕ × Sent)) (batch queue : List (ℕ × Sent)) :
    Prop where
  queued : Listed heap cmdq.head queue
  tail : cmdq.tail = (queue.map Prod.fst).getLast?
  batched : Listed heap rest batch
  held : ∀ x ∈ cur, (heap x.1).map Cell.val = some x.2
  distinct : ((cur.toList ++ (batch ++ queue)).map Prod.fst).Nodup
  owned : ∀ t x, own t = some x → (heap x.1).map Cell.val = some x.2
  apart : ∀ t x, own t = some x → x.1 ∉ (cur.toList ++ (batch ++ queue)).map Prod.fst
  own_inj : ∀ t t' x y, own t = some x → own t' = some y → x.1 = y.1 → t = t'

variable {heap : ℕ → Option (Cell Sent)} {cmdq : Cmdq} {rest : Option ℕ}
  {own : ℕ → Option (ℕ × Sent)} {cur : Option (ℕ × Sent)} {batch queue : List (ℕ × Sent)}
  {t a : ℕ} {sent : Sent} {cell : Option (Cell Sent)}

/-- A command that the worker has or will have. -/
theorem Memory.live (h : Memory heap cmdq rest own cur batch queue)
    (ha : a ∈ (cur.toList ++ (batch ++ queue)).map Prod.fst) : heap a ≠ none := by
  obtain ⟨x, hx, rfl⟩ := List.mem_map.mp ha
  have hval : (heap x.1).map Cell.val = some x.2 := by
    rcases List.mem_append.mp hx with hx | hx
    · exact h.held x (Option.mem_toList.mp hx)
    · rcases List.mem_append.mp hx with hx | hx
      · exact h.batched.vals x hx
      · exact h.queued.vals x hx
  intro hnone
  rw [hnone] at hval
  cases hval

/-- Changes at an address that the worker does not have, and that no other client has. -/
theorem Memory.write (h : Memory heap cmdq rest own cur batch queue)
    (ha : a ∉ (cur.toList ++ (batch ++ queue)).map Prod.fst)
    (hother : ∀ t' x, t' ≠ t → own t' = some x → x.1 ≠ a) (new : Option (ℕ × Sent))
    (hnew : ∀ x ∈ new, x.1 = a ∧ cell.map Cell.val = some x.2) :
    Memory (Function.update heap a cell) cmdq rest (Function.update own t new) cur batch queue := by
  have hsame : ∀ b ∈ (cur.toList ++ (batch ++ queue)).map Prod.fst,
      Function.update heap a cell b = heap b :=
    fun b hb => Function.update_of_ne (fun heq : b = a => ha (heq ▸ hb)) _ _
  have hold : ∀ t' x, Function.update own t new t' = some x → t' = t ∧ x ∈ new ∨
      t' ≠ t ∧ own t' = some x := by
    intro t' x hx
    by_cases ht : t' = t
    · rw [ht, Function.update_self] at hx
      exact .inl ⟨ht, hx⟩
    · rw [Function.update_of_ne ht] at hx
      exact .inr ⟨ht, hx⟩
  refine ⟨h.queued.frame fun b hb => hsame b ?_, h.tail, h.batched.frame fun b hb => hsame b ?_,
    fun x hx => ?_, h.distinct, fun t' x hx => ?_, fun t' x hx => ?_, fun t₁ t₂ x y hx hy hxy => ?_⟩
  · rw [List.map_append, List.map_append]
    exact List.mem_append_right _ (List.mem_append_right _ hb)
  · rw [List.map_append, List.map_append]
    exact List.mem_append_right _ (List.mem_append_left _ hb)
  · rw [hsame x.1 (List.mem_map_of_mem (List.mem_append_left _ (Option.mem_toList.mpr hx)))]
    exact h.held x hx
  · rcases hold t' x hx with ⟨-, hx⟩ | ⟨ht, hx⟩
    · rw [(hnew x hx).1, Function.update_self]
      exact (hnew x hx).2
    · rw [Function.update_of_ne (hother t' x ht hx)]
      exact h.owned t' x hx
  · rcases hold t' x hx with ⟨-, hx⟩ | ⟨ht, hx⟩
    · rw [(hnew x hx).1]
      exact ha
    · exact h.apart t' x hx
  · rcases hold t₁ x hx with ⟨ht₁, hx⟩ | ⟨ht₁, hx⟩
    · rcases hold t₂ y hy with ⟨ht₂, -⟩ | ⟨ht₂, hy⟩
      · rw [ht₁, ht₂]
      · exact absurd (hxy.symm.trans (hnew x hx).1) (hother t₂ y ht₂ hy)
    · rcases hold t₂ y hy with ⟨-, hy⟩ | ⟨ht₂, hy⟩
      · exact absurd (hxy.trans (hnew y hy).1) (hother t₁ x ht₁ hx)
      · exact h.own_inj t₁ t₂ x y hx hy hxy

/-- `calloc`. -/
theorem Memory.alloc (h : Memory heap cmdq rest own cur batch queue) (ha : heap a = none)
    (t : ℕ) (sent : Sent) :
    Memory (Function.update heap a (some ⟨sent, none⟩)) cmdq rest
      (Function.update own t (some (a, sent))) cur batch queue := by
  refine h.write (fun hmem => h.live hmem ha) (fun t' x _ hx heq => ?_) _ fun x hx => ?_
  · have := h.owned t' x hx
    rw [heq, ha] at this
    cases this
  · obtain rfl := Option.some.inj hx
    exact ⟨rfl, rfl⟩

/-- A client writes to its command, or frees it. -/
theorem Memory.rewrite (h : Memory heap cmdq rest own cur batch queue)
    (hown : own t = some (a, sent)) (new : Option (ℕ × Sent))
    (hnew : ∀ x ∈ new, x.1 = a ∧ cell.map Cell.val = some x.2) :
    Memory (Function.update heap a cell) cmdq rest (Function.update own t new) cur batch queue :=
  h.write (h.apart t _ hown) (fun t' x ht hx heq => ht (h.own_inj t' t x _ hx hown heq)) new hnew

/-- A client pushes its command. -/
theorem Memory.push (h : Memory heap cmdq rest own cur batch queue)
    (hown : own t = some (a, sent)) :
    ∃ cmdq' heap', cmdqPush cmdq heap a = some (cmdq', heap') ∧
      Memory heap' cmdq' rest (Function.update own t none) cur batch (queue ++ [(a, sent)]) := by
  obtain ⟨⟨val, next⟩, hcell, hval⟩ := Option.map_eq_some_iff.mp (h.owned t _ hown)
  obtain rfl : val = sent := hval
  have hapart := h.apart t _ hown
  have hsplit : ∀ b, b ∈ (cur.toList ++ (batch ++ queue)).map Prod.fst ↔
      b ∈ (cur.toList ++ batch).map Prod.fst ∨ b ∈ queue.map Prod.fst := by
    intro b
    rw [← List.append_assoc, List.map_append, List.mem_append]
  have hqueue : a ∉ queue.map Prod.fst := fun hmem => hapart ((hsplit a).mpr (.inr hmem))
  obtain ⟨cmdq', heap', hpush, hlisted, htail, hframe⟩ := cmdqPush_spec h.queued h.tail hcell hqueue
  refine ⟨cmdq', heap', hpush, ?_⟩
  -- the commands of the others are not touched
  have hsame : ∀ b, b ≠ a → b ∉ queue.map Prod.fst → heap' b = heap b := hframe
  have hfront : ∀ b ∈ (cur.toList ++ batch).map Prod.fst, heap' b = heap b := by
    intro b hb
    refine hsame b (fun heq : b = a => hapart ((hsplit a).mpr (.inl (heq ▸ hb)))) fun hb' => ?_
    have hdistinct := h.distinct
    rw [← List.append_assoc, List.map_append] at hdistinct
    exact (List.nodup_append'.mp hdistinct).2.2 hb hb'
  have hother : ∀ t' x, Function.update own t none t' = some x → own t' = some x ∧ x.1 ≠ a := by
    intro t' x hx
    by_cases ht : t' = t
    · rw [ht, Function.update_self] at hx
      cases hx
    · rw [Function.update_of_ne ht] at hx
      exact ⟨hx, fun heq => ht (h.own_inj t' t x _ hx hown heq)⟩
  have hmem : ∀ b, b ∈ (cur.toList ++ (batch ++ (queue ++ [(a, val)]))).map Prod.fst ↔
      b ∈ (cur.toList ++ (batch ++ queue)).map Prod.fst ∨ b = a := by
    intro b
    rw [← List.append_assoc, ← List.append_assoc, List.map_append, List.mem_append,
      List.append_assoc, List.map_cons, List.map_nil, List.mem_singleton]
  refine ⟨hlisted, htail, h.batched.frame fun b hb => hfront b ?_, fun x hx => ?_, ?_,
    fun t' x hx => ?_, fun t' x hx => ?_, fun t₁ t₂ x y hx hy => ?_⟩
  · rw [List.map_append]
    exact List.mem_append_right _ hb
  · rw [hfront x.1 (List.mem_map_of_mem (List.mem_append_left _ (Option.mem_toList.mpr hx)))]
    exact h.held x hx
  · rw [← List.append_assoc, ← List.append_assoc, List.map_append, List.append_assoc]
    refine List.nodup_append'.mpr ⟨h.distinct, List.nodup_singleton a, fun b hb hba => ?_⟩
    exact hapart (List.mem_singleton.mp hba ▸ hb)
  · obtain ⟨hx, hne⟩ := hother t' x hx
    rw [hsame x.1 hne fun hq => h.apart t' x hx ((hsplit _).mpr (.inr hq))]
    exact h.owned t' x hx
  · obtain ⟨hx, hne⟩ := hother t' x hx
    rw [hmem]
    exact not_or.mpr ⟨h.apart t' x hx, hne⟩
  · exact h.own_inj t₁ t₂ x y (hother t₁ x hx).1 (hother t₂ y hy).1

/-- `detach_commands`, when the worker is done with its batch. -/
theorem Memory.detach (h : Memory heap cmdq none own none batch queue) :
    batch = [] ∧ Memory heap ⟨none, none⟩ cmdq.head own none queue [] := by
  obtain rfl := h.batched.eq_nil
  refine ⟨rfl, listed_nil, rfl, h.queued, nofun, ?_, h.owned, ?_, h.own_inj⟩
  · rw [List.append_nil]
    exact h.distinct
  · rw [List.append_nil]
    exact h.apart

/-- The worker reads the next command of its batch. -/
theorem Memory.next (h : Memory heap cmdq (some a) own none batch queue) :
    ∃ sent next batch', batch = (a, sent) :: batch' ∧ heap a = some ⟨sent, next⟩ ∧
      Memory heap cmdq next own (some (a, sent)) batch' queue := by
  obtain ⟨sent, next, batch', rfl, hcell, hlisted⟩ := h.batched.head
  refine ⟨sent, next, batch', rfl, hcell, h.queued, h.tail, hlisted, ?_, h.distinct, h.owned, h.apart,
    h.own_inj⟩
  intro x hx
  obtain rfl := Option.some.inj hx
  rw [hcell]
  rfl

/-- The worker frees the command it has processed. -/
theorem Memory.freeCur (h : Memory heap cmdq rest own (some (a, sent)) batch queue) :
    Memory (Function.update heap a none) cmdq rest own none batch queue := by
  have hnodup := h.distinct
  rw [show ((some (a, sent)).toList ++ (batch ++ queue)).map Prod.fst =
    a :: (batch ++ queue).map Prod.fst from rfl] at hnodup
  obtain ⟨ha, hnodup⟩ := List.nodup_cons.mp hnodup
  rw [List.map_append, List.mem_append, not_or] at ha
  have hsame : ∀ b, b ≠ a → Function.update heap a none b = heap b :=
    fun b hb => Function.update_of_ne hb _ _
  have hne : ∀ t x, own t = some x → x.1 ≠ a := by
    intro t x hx heq
    exact h.apart t x hx (heq ▸ List.mem_cons_self)
  refine ⟨h.queued.frame fun b hb => hsame b fun heq => ha.2 (heq ▸ hb), h.tail,
    h.batched.frame fun b hb => hsame b fun heq => ha.1 (heq ▸ hb), nofun, hnodup, ?_, ?_, h.own_inj⟩
  · intro t x hx
    rw [hsame x.1 (hne t x hx)]
    exact h.owned t x hx
  · intro t x hx hmem
    exact h.apart t x hx (List.mem_cons_of_mem _ hmem)

end memory

/-- The command that a client has not sent yet. -/
def Pc.own : Pc → Option (ℕ × Sent)
  | .clearing c | .acquiring c | .resetting c => some (c.addr, c.sent false)
  | .enqueueing c waiter => some (c.addr, c.sent waiter)
  | _ => none

/-- The commands that the worker has not read yet. -/
def WorkerPc.rest : WorkerPc → Option ℕ
  | .atCmd cmd | .dropping cmd => cmd
  | .stealing _ next _ | .completing _ next _ | .freeing _ next => next
  | _ => none

/-- The command that the worker has read. -/
def WorkerPc.cur : WorkerPc → Option ℕ
  | .stealing cmd _ _ | .completing cmd _ _ | .freeing cmd _ => some cmd
  | _ => none

/-! ### What was seen -/

/-- The command that a step pushes. -/
def Act.sent : Act → Option Sent
  | .accepted sent => some sent
  | _ => none

/-- The command that a step processes. -/
def Act.result : Act → Option (Sent × CmdOut)
  | .processed sent out => some (sent, out)
  | _ => none

/-- The call whose waiter a step completes, with the status. -/
def Act.answer : Act → Option (ℕ × ℕ)
  | .completed call status => some (call, status)
  | _ => none

/-- The commands accepted, in the order in which they were pushed. -/
def acceptedOf (acts : List Act) : List Sent := acts.filterMap Act.sent

/-- The commands processed, in order. -/
def processedOf (acts : List Act) : List (Sent × CmdOut) := acts.filterMap Act.result

/-- The completions of the waiter, in order. -/
def completedOf (acts : List Act) : List (ℕ × ℕ) := acts.filterMap Act.answer

theorem filterMap_concat {α β : Type} (f : α → Option β) (l : List α) (a : α) :
    (l ++ [a]).filterMap f = l.filterMap f ++ (f a).toList := by
  rw [List.filterMap_append]
  cases h : f a with
  | none => rw [List.filterMap_cons_none h]; rfl
  | some b => rw [List.filterMap_cons_some h]; rfl

theorem acceptedOf_concat (acts : List Act) (act : Act) :
    acceptedOf (acts ++ [act]) = acceptedOf acts ++ act.sent.toList :=
  filterMap_concat Act.sent acts act

theorem processedOf_concat (acts : List Act) (act : Act) :
    processedOf (acts ++ [act]) = processedOf acts ++ act.result.toList :=
  filterMap_concat Act.result acts act

theorem completedOf_concat (acts : List Act) (act : Act) :
    completedOf (acts ++ [act]) = completedOf acts ++ act.answer.toList :=
  filterMap_concat Act.answer acts act

theorem mem_processedOf {acts : List Act} {sent : Sent} {out : CmdOut} :
    (sent, out) ∈ processedOf acts ↔ .processed sent out ∈ acts := by
  refine List.mem_filterMap.trans ⟨fun ⟨act, hmem, hact⟩ => ?_, fun hmem => ⟨_, hmem, rfl⟩⟩
  cases act with
  | processed _ _ =>
    obtain ⟨rfl, rfl⟩ := Prod.mk.inj (Option.some.inj hact)
    exact hmem
  | _ => cases hact

theorem mem_completedOf {acts : List Act} {call status : ℕ} :
    (call, status) ∈ completedOf acts ↔ .completed call status ∈ acts := by
  refine List.mem_filterMap.trans ⟨fun ⟨act, hmem, hact⟩ => ?_, fun hmem => ⟨_, hmem, rfl⟩⟩
  cases act with
  | completed _ _ =>
    obtain ⟨rfl, rfl⟩ := Prod.mk.inj (Option.some.inj hact)
    exact hmem
  | _ => cases hact

/-! ### The waiter -/

section waiter

/-- The stage of a client. -/
def Pc.stage : Pc → Stage ℕ
  | .resetting _ | .releasing _ _ => .taken
  | .enqueueing _ true => .ready
  | .waiting c => .waiting c.number
  | _ => .out

/-- The call that waits for a command. -/
def Sent.asks (sent : Sent) : Option ℕ := if sent.waiter then some sent.call else none

theorem Sent.asks_eq_some {sent : Sent} {call : ℕ} :
    sent.asks = some call ↔ sent.waiter = true ∧ sent.call = call := by
  rw [Sent.asks]
  split
  · next hwaiter => exact ⟨fun h => ⟨hwaiter, Option.some.inj h⟩, fun h => congrArg some h.2⟩
  · next hwaiter => exact ⟨nofun, fun h => absurd h.1 hwaiter⟩

/-- The status that the worker has for the command it has read. -/
def WorkerPc.status : WorkerPc → Option ℕ
  | .stealing _ _ out => some out.status
  | .completing _ _ status => some status
  | _ => none

/-- The completion that the worker owes for the command it has read. -/
def owed (pc : WorkerPc) (cur : Option (ℕ × Sent)) : List (ℕ × ℕ) :=
  (cur.bind fun x => x.2.asks.bind fun call => pc.status.map fun status => (call, status)).toList

theorem owed_some {pc : WorkerPc} {status : ℕ} (h : pc.status = some status) (a : ℕ) (sent : Sent) :
    owed pc (some (a, sent)) = (sent.asks.map fun call => (call, status)).toList := by
  rw [owed, Option.bind_some, h]
  cases sent.asks with
  | none => rfl
  | some call => rfl

theorem owed_none {pc : WorkerPc} (h : pc.status = none) (cur : Option (ℕ × Sent)) :
    owed pc cur = [] := by
  rw [owed, h]
  cases cur with
  | none => rfl
  | some x =>
    rw [Option.bind_some]
    cases x.2.asks with
    | none => rfl
    | some call => rfl

/-- The calls whose completion is still to come. -/
def asked (pc : WorkerPc) (cur : Option (ℕ × Sent)) (cmds : List (ℕ × Sent)) : List ℕ :=
  (owed pc cur).map Prod.fst ++ cmds.filterMap fun x => x.2.asks

/-- Reading a command changes nothing about the completions to come. -/
theorem asked_read (a : ℕ) (next : Option ℕ) (out : CmdOut) (sent : Sent) (cmds : List (ℕ × Sent)) :
    asked (.stealing a next out) (some (a, sent)) cmds =
      asked (.atCmd (some a)) none ((a, sent) :: cmds) := by
  rw [asked, asked, owed_some rfl, owed_none rfl]
  cases h : sent.asks with
  | none => simp [h]
  | some call => simp [h]

end waiter

/-! ### The numbers of the calls -/

section calls

/-- The call of a thread that has not sent its command yet. -/
def Pc.unsent : Pc → Option ℕ
  | .clearing c | .acquiring c | .resetting c | .enqueueing c _ => some c.number
  | .shuttingDown number => some number
  | _ => none

/-- A number belongs to one call, which sends one command. -/
structure CallsInv (calls : ℕ) (unsent : ℕ → Option ℕ) (accepted : List Sent) : Prop where
  bound : ∀ sent ∈ accepted, sent.call < calls
  nodup : (accepted.map Sent.call).Nodup
  unsent_lt : ∀ t n, unsent t = some n → n < calls
  fresh : ∀ t n, unsent t = some n → n ∉ accepted.map Sent.call
  unsent_inj : ∀ t t' n, unsent t = some n → unsent t' = some n → t = t'

variable {calls t : ℕ} {unsent : ℕ → Option ℕ} {accepted : List Sent} {sent : Sent}

theorem update_none_eq_some {unsent : ℕ → Option ℕ} {t' n : ℕ}
    (h : Function.update unsent t none t' = some n) : t' ≠ t ∧ unsent t' = some n := by
  by_cases ht : t' = t
  · rw [ht, Function.update_self] at h
    cases h
  · rw [Function.update_of_ne ht] at h
    exact ⟨ht, h⟩

/-- A call begins and ends at once. -/
theorem CallsInv.skip (h : CallsInv calls unsent accepted) : CallsInv (calls + 1) unsent accepted :=
  ⟨fun sent hs => Nat.lt_succ_of_lt (h.bound sent hs), h.nodup,
    fun t n hn => Nat.lt_succ_of_lt (h.unsent_lt t n hn), h.fresh, h.unsent_inj⟩

/-- A call begins. -/
theorem CallsInv.begin (h : CallsInv calls unsent accepted) (t : ℕ) :
    CallsInv (calls + 1) (Function.update unsent t (some calls)) accepted := by
  have hold : ∀ t' n, Function.update unsent t (some calls) t' = some n →
      t' = t ∧ n = calls ∨ unsent t' = some n := by
    intro t' n hn
    by_cases ht : t' = t
    · rw [ht, Function.update_self] at hn
      exact .inl ⟨ht, (Option.some.inj hn).symm⟩
    · rw [Function.update_of_ne ht] at hn
      exact .inr hn
  refine ⟨h.skip.bound, h.nodup, fun t' n hn => ?_, fun t' n hn => ?_, fun t₁ t₂ n h₁ h₂ => ?_⟩
  · rcases hold t' n hn with ⟨-, rfl⟩ | hn
    · exact Nat.lt_succ_self n
    · exact Nat.lt_succ_of_lt (h.unsent_lt t' n hn)
  · rcases hold t' n hn with ⟨-, rfl⟩ | hn
    · intro hmem
      obtain ⟨sent, hs, heq⟩ := List.mem_map.mp hmem
      exact absurd (h.bound sent hs) (heq ▸ Nat.lt_irrefl _)
    · exact h.fresh t' n hn
  · rcases hold t₁ n h₁ with ⟨ht₁, hn₁⟩ | hn₁
    · rcases hold t₂ n h₂ with ⟨ht₂, -⟩ | hn₂
      · rw [ht₁, ht₂]
      · exact absurd (h.unsent_lt t₂ n hn₂) (hn₁ ▸ Nat.lt_irrefl n)
    · rcases hold t₂ n h₂ with ⟨-, hn₂⟩ | hn₂
      · exact absurd (h.unsent_lt t₁ n hn₁) (hn₂ ▸ Nat.lt_irrefl n)
      · exact h.unsent_inj t₁ t₂ n hn₁ hn₂

/-- A call ends without a command. -/
theorem CallsInv.drop (h : CallsInv calls unsent accepted) (t : ℕ) :
    CallsInv calls (Function.update unsent t none) accepted :=
  ⟨h.bound, h.nodup, fun t' n hn => h.unsent_lt t' n (update_none_eq_some hn).2,
    fun t' n hn => h.fresh t' n (update_none_eq_some hn).2,
    fun t₁ t₂ n h₁ h₂ => h.unsent_inj t₁ t₂ n (update_none_eq_some h₁).2 (update_none_eq_some h₂).2⟩

/-- A call sends its command. -/
theorem CallsInv.send (h : CallsInv calls unsent accepted) (ht : unsent t = some sent.call) :
    CallsInv calls (Function.update unsent t none) (accepted ++ [sent]) := by
  have hmap : (accepted ++ [sent]).map Sent.call = accepted.map Sent.call ++ [sent.call] :=
    List.map_append
  refine ⟨fun x hx => ?_, ?_, (h.drop t).unsent_lt, fun t' n hn => ?_, (h.drop t).unsent_inj⟩
  · rcases List.mem_append.mp hx with hx | hx
    · exact h.bound x hx
    · rw [List.mem_singleton.mp hx]
      exact h.unsent_lt t _ ht
  · rw [hmap]
    refine List.nodup_append'.mpr ⟨h.nodup, List.nodup_singleton _, fun n hn hn' => ?_⟩
    exact h.fresh t _ ht (List.mem_singleton.mp hn' ▸ hn)
  · obtain ⟨hne, hn⟩ := update_none_eq_some hn
    rw [hmap, List.mem_append, List.mem_singleton, not_or]
    exact ⟨h.fresh t' n hn, fun heq => hne (h.unsent_inj t' t _ hn (heq ▸ ht))⟩

end calls

/-! ### The end of the worker -/

section ending

/-- The worker has processed `CMD_SHUTDOWN`. -/
def Phase.shutdownSeen : Phase → Bool
  | .commands shutdownSeen => shutdownSeen
  | .exited => true
  | _ => false

/-- Where the worker is in a phase. -/
def WorkerPc.inPhase : WorkerPc → Phase → Bool
  | .detaching, .commands shutdownSeen => !shutdownSeen
  | .atCmd _, .commands _ | .stealing _ _ _, .commands _ => true
  | .completing _ _ _, .commands _ | .freeing _ _, .commands _ => true
  | .outside, .due _ | .outside, .wait => true
  | .leaving, .exited | .dropping _, .exited | .finished, .exited => true
  | _, _ => false

/-- `CMD_SHUTDOWN` is the last command, and the worker leaves its loop for it only. -/
structure EndInv (queued accepting : Bool) (accepted processed : List Sent) (phase : Phase)
    (pc : WorkerPc) : Prop where
  accepting_eq : accepting = !queued
  before : queued = false → ∀ sent ∈ accepted, sent.cmd ≠ .shutdown
  last : queued = true → ∃ pre sent, accepted = pre ++ [sent] ∧ sent.cmd = .shutdown ∧
    ∀ x ∈ pre, x.cmd ≠ .shutdown
  seen : phase.shutdownSeen = true → ∃ sent ∈ processed, sent.cmd = .shutdown
  place : pc.inPhase phase = true

variable {queued accepting : Bool} {accepted processed pending : List Sent} {phase : Phase}
  {pc : WorkerPc} {sent : Sent}

/-- Nothing comes behind a `CMD_SHUTDOWN`. -/
theorem EndInv.eq_nil (h : EndInv queued accepting accepted processed phase pc)
    {pre post : List Sent} (heq : accepted = pre ++ post) (hmem : sent ∈ pre)
    (hsent : sent.cmd = .shutdown) : post = [] := by
  have hqueued : queued = true := by
    by_contra hq
    exact h.before ((Bool.not_eq_true _).mp hq) sent (heq ▸ List.mem_append_left _ hmem) hsent
  obtain ⟨pre', last, hlast, -, hpre⟩ := h.last hqueued
  rcases List.eq_nil_or_concat post with rfl | ⟨post', x, rfl⟩
  · rfl
  · -- otherwise it is not the last command
    rw [hlast, List.concat_eq_append, ← List.append_assoc] at heq
    obtain ⟨rfl, -⟩ := List.append_inj' heq rfl
    exact absurd hsent (hpre sent (List.mem_append_left _ hmem))

theorem EndInv.send (h : EndInv queued true accepted processed phase pc)
    (hsent : sent.cmd ≠ .shutdown) :
    EndInv queued true (accepted ++ [sent]) processed phase pc := by
  have hqueued : queued = false := by
    have := h.accepting_eq
    cases queued with
    | false => rfl
    | true => cases this
  refine ⟨h.accepting_eq, fun _ x hx => ?_, fun hq => ?_, h.seen, h.place⟩
  · rcases List.mem_append.mp hx with hx | hx
    · exact h.before hqueued x hx
    · rw [List.mem_singleton.mp hx]
      exact hsent
  · rw [hqueued] at hq
    cases hq

theorem EndInv.shutdown (h : EndInv false accepting accepted processed phase pc)
    (hsent : sent.cmd = .shutdown) :
    EndInv true false (accepted ++ [sent]) processed phase pc :=
  ⟨rfl, nofun, fun _ => ⟨accepted, sent, rfl, hsent, h.before rfl⟩, h.seen, h.place⟩

end ending

/-! ### The invariant -/

/-- A command of a call that waits was processed, with this status. -/
def Answered (acts : List Act) (call status : ℕ) : Prop :=
  ∃ p ∈ processedOf acts, p.1.asks = some call ∧ p.2.status = status

/-- What holds of the system and of what was seen so far. -/
structure SysInv (acts : List Act) (s : Sys) (cur : Option (ℕ × Sent))
    (batch queue : List (ℕ × Sent)) : Prop where
  memory : Memory s.heap s.cmdq s.workerPc.rest (Pc.own ∘ s.pcs) cur batch queue
  cur_eq : cur.map Prod.fst = s.workerPc.cur
  waiter : WaiterInv s.cmdWaiterBusy s.cmdWaiter (Pc.stage ∘ s.pcs)
    (asked s.workerPc cur (batch ++ queue)) (completedOf acts)
  calls : CallsInv s.calls (Pc.unsent ∘ s.pcs) (acceptedOf acts)
  ending : EndInv s.shutdownQueued s.acceptingCommands (acceptedOf acts)
    ((processedOf acts).map Prod.fst) s.worker.phase s.workerPc
  accepted : acceptedOf acts = (processedOf acts).map Prod.fst ++ (batch ++ queue).map Prod.snd
  answers : (processedOf acts).filterMap (fun p => p.1.asks.map fun call => (call, p.2.status)) =
    completedOf acts ++ owed s.workerPc cur
  returned : ∀ pre call status post, acts = pre ++ .returned call status :: post →
    Answered pre call status
  table : ∃ t, WorkerInv s.worker.self t

section steps

variable {acts : List Act} {s s' : Sys} {cur cur' : Option (ℕ × Sent)}
  {batch batch' queue queue' : List (ℕ × Sent)} {act : Act} {t : ℕ} {pc : Pc}

theorem sysInv_start : SysInv [] sysStart none [] [] where
  memory := ⟨listed_nil, rfl, listed_nil, nofun, List.nodup_nil, nofun, nofun, nofun⟩
  cur_eq := rfl
  waiter := .free rfl (fun _ => rfl) rfl
  calls := ⟨nofun, List.nodup_nil, nofun, nofun, nofun⟩
  ending := ⟨rfl, nofun, nofun, nofun, rfl⟩
  accepted := rfl
  answers := rfl
  returned pre call status post h := by simp at h
  table := ⟨_, workerInv_new⟩

/-- A step that returns from no wait, or from one that was answered. -/
theorem returned_concat (h : ∀ pre call status post, acts = pre ++ .returned call status :: post →
      Answered pre call status)
    (hact : ∀ call status, act = .returned call status → Answered acts call status) :
    ∀ pre call status post, acts ++ [act] = pre ++ .returned call status :: post →
      Answered pre call status := by
  intro pre call status post heq
  rcases concat_eq_append_cons heq with ⟨rfl, hlast⟩ | ⟨post', rfl⟩
  · exact hact call status hlast
  · exact h pre call status post' rfl

/-- The waiter is completed with the status of its command. -/
theorem SysInv.answered (h : SysInv acts s cur batch queue) {call status : ℕ}
    (hmem : (call, status) ∈ completedOf acts) : Answered acts call status := by
  have hall := List.mem_append_left (owed s.workerPc cur) hmem
  rw [← h.answers] at hall
  obtain ⟨p, hp, heq⟩ := List.mem_filterMap.mp hall
  obtain ⟨call', hasks, heq⟩ := Option.map_eq_some_iff.mp heq
  obtain ⟨rfl, rfl⟩ := Prod.mk.inj heq
  exact ⟨p, hp, hasks, rfl⟩

/-- A step of a client: the worker keeps what it has. -/
theorem SysInv.client (h : SysInv acts s cur batch queue)
    (hmemory : Memory s'.heap s'.cmdq s.workerPc.rest (Pc.own ∘ s'.pcs) cur batch queue')
    (hwaiter : WaiterInv s'.cmdWaiterBusy s'.cmdWaiter (Pc.stage ∘ s'.pcs)
      (asked s.workerPc cur (batch ++ queue')) (completedOf acts))
    (hcalls : CallsInv s'.calls (Pc.unsent ∘ s'.pcs) (acceptedOf acts ++ act.sent.toList))
    (hending : EndInv s'.shutdownQueued s'.acceptingCommands (acceptedOf acts ++ act.sent.toList)
      ((processedOf acts).map Prod.fst) s.worker.phase s.workerPc)
    (hqueue : queue'.map Prod.snd = queue.map Prod.snd ++ act.sent.toList)
    (hresult : act.result = none) (hanswer : act.answer = none)
    (hreturned : ∀ call status, act = .returned call status → Answered acts call status)
    (hpc : s'.workerPc = s.workerPc) (hself : s'.worker = s.worker) :
    SysInv (acts ++ [act]) s' cur batch queue' := by
  have hprocessed : processedOf (acts ++ [act]) = processedOf acts := by
    rw [processedOf_concat, hresult, Option.toList_none, List.append_nil]
  have hcompleted : completedOf (acts ++ [act]) = completedOf acts := by
    rw [completedOf_concat, hanswer, Option.toList_none, List.append_nil]
  refine ⟨?_, ?_, ?_, ?_, ?_, ?_, ?_, returned_concat h.returned hreturned, ?_⟩
  · rw [hpc]
    exact hmemory
  · rw [hpc]
    exact h.cur_eq
  · rw [hpc, hcompleted]
    exact hwaiter
  · rw [acceptedOf_concat]
    exact hcalls
  · rw [acceptedOf_concat, hprocessed, hself, hpc]
    exact hending
  · rw [acceptedOf_concat, hprocessed, h.accepted, List.map_append, List.map_append, hqueue,
      List.append_assoc, List.append_assoc]
  · rw [hprocessed, hcompleted, hpc]
    exact h.answers
  · rw [hself]
    exact h.table

/-- A step of a client that sends nothing. -/
theorem SysInv.silent (h : SysInv acts s cur batch queue)
    (hmemory : Memory s'.heap s'.cmdq s.workerPc.rest (Pc.own ∘ s'.pcs) cur batch queue)
    (hwaiter : WaiterInv s'.cmdWaiterBusy s'.cmdWaiter (Pc.stage ∘ s'.pcs)
      (asked s.workerPc cur (batch ++ queue)) (completedOf acts))
    (hcalls : CallsInv s'.calls (Pc.unsent ∘ s'.pcs) (acceptedOf acts))
    (hqueued : s'.shutdownQueued = s.shutdownQueued)
    (haccepting : s'.acceptingCommands = s.acceptingCommands)
    (hsent : act.sent = none) (hresult : act.result = none) (hanswer : act.answer = none)
    (hreturned : ∀ call status, act = .returned call status → Answered acts call status)
    (hpc : s'.workerPc = s.workerPc) (hself : s'.worker = s.worker) :
    SysInv (acts ++ [act]) s' cur batch queue := by
  refine h.client hmemory hwaiter ?_ ?_ ?_ hresult hanswer hreturned hpc hself
  · rw [hsent, Option.toList_none, List.append_nil]
    exact hcalls
  · rw [hsent, Option.toList_none, List.append_nil, hqueued, haccepting]
    exact h.ending
  · rw [hsent, Option.toList_none, List.append_nil]

/-- A thread goes on, for a part of what it has. -/
theorem comp_goto {β : Type} (f : Pc → β) (s : Sys) (t : ℕ) (pc : Pc) :
    f ∘ (s.goto t pc).pcs = Function.update (f ∘ s.pcs) t (f pc) :=
  Function.comp_update f s.pcs t pc

/-- What a step of a client comes to. -/
def Goes (acts : List Act) (cur : Option (ℕ × Sent)) (batch : List (ℕ × Sent))
    (r : Option (Sys × Act)) : Prop :=
  ∃ s' act queue', r = some (s', act) ∧ SysInv (acts ++ [act]) s' cur batch queue'

/-- A step that others see nothing of. -/
def Act.silent : Act → Bool
  | .quiet | .closed _ _ | .failed _ => true
  | _ => false

theorem Act.silent_spec (h : act.silent = true) : act.sent = none ∧ act.result = none ∧
    act.answer = none ∧ ∀ call status, act ≠ .returned call status := by
  cases act with
  | quiet | closed _ _ | failed _ => exact ⟨rfl, rfl, rfl, nofun⟩
  | accepted _ | processed _ _ | completed _ _ | returned _ _ => cases h

/-- `u` is `s` but for the commands, the waiter and what the invariant does not speak of. -/
structure Beside (u s : Sys) : Prop where
  pcs : u.pcs = s.pcs
  queued : u.shutdownQueued = s.shutdownQueued
  accepting : u.acceptingCommands = s.acceptingCommands
  workerPc : u.workerPc = s.workerPc
  worker : u.worker = s.worker

/-- A thread goes on without sending a command. -/
theorem SysInv.goes (h : SysInv acts s cur batch queue) {u : Sys} (hu : Beside u s)
    (hact : act.silent = true)
    (hmemory : Memory u.heap u.cmdq s.workerPc.rest (Function.update (Pc.own ∘ s.pcs) t pc.own) cur
      batch queue)
    (hwaiter : WaiterInv u.cmdWaiterBusy u.cmdWaiter (Function.update (Pc.stage ∘ s.pcs) t pc.stage)
      (asked s.workerPc cur (batch ++ queue)) (completedOf acts))
    (hcalls : CallsInv u.calls (Function.update (Pc.unsent ∘ s.pcs) t pc.unsent) (acceptedOf acts)) :
    SysInv (acts ++ [act]) (u.goto t pc) cur batch queue := by
  rw [← hu.pcs, ← comp_goto] at hmemory hwaiter hcalls
  obtain ⟨hsent, hresult, hanswer, hreturned⟩ := Act.silent_spec hact
  exact h.silent hmemory hwaiter hcalls hu.queued hu.accepting hsent hresult hanswer
    (fun call status heq => absurd heq (hreturned call status)) hu.workerPc hu.worker

theorem update_same {β : Type} {f : Pc → β} (hf : f pc = f (s.pcs t)) :
    Function.update (f ∘ s.pcs) t (f pc) = f ∘ s.pcs := by
  rw [hf]
  exact Function.update_eq_self t (f ∘ s.pcs)

/-- The thread keeps what it has. -/
theorem SysInv.same (h : SysInv acts s cur batch queue) {u : Sys} (hu : Beside u s)
    (hact : act.silent = true) (hown : pc.own = (s.pcs t).own) (hstage : pc.stage = (s.pcs t).stage)
    (hunsent : pc.unsent = (s.pcs t).unsent)
    (hrest : (u.heap, u.cmdq, u.cmdWaiterBusy, u.cmdWaiter, u.calls) =
      (s.heap, s.cmdq, s.cmdWaiterBusy, s.cmdWaiter, s.calls)) :
    SysInv (acts ++ [act]) (u.goto t pc) cur batch queue := by
  simp only [Prod.mk.injEq] at hrest
  obtain ⟨hheap, hcmdq, hbusy, hwaiter, hcalls⟩ := hrest
  refine h.goes hu hact ?_ ?_ ?_
  · rw [hheap, hcmdq, update_same hown]
    exact h.memory
  · rw [hbusy, hwaiter, update_same hstage]
    exact h.waiter
  · rw [hcalls, update_same hunsent]
    exact h.calls

/-! ### Steps of the clients -/

/-- The thread frees its command. -/
theorem SysInv.frees (h : SysInv acts s cur batch queue) {a : ℕ} {sent : Sent}
    (hown : (s.pcs t).own = some (a, sent)) :
    s.free a = some (s.write a none) ∧
      Memory (s.write a none).heap s.cmdq s.workerPc.rest
        (Function.update (Pc.own ∘ s.pcs) t none) cur batch queue := by
  obtain ⟨cell, hcell, -⟩ := Option.map_eq_some_iff.mp (h.memory.owned t _ hown)
  refine ⟨?_, h.memory.rewrite hown none nofun⟩
  rw [Sys.free, hcell]
  rfl

/-- A call begins. -/
theorem SysInv.begin (h : SysInv acts s cur batch queue) (hidle : s.pcs t = .idle) (caller : Caller)
    {pc : Call → Pc} {addr : Option ℕ} (haddr : ∀ a ∈ addr, s.heap a = none)
    (hpc : ∀ c, (pc c).own = some (c.addr, c.sent false) ∧ (pc c).stage = .out ∧
      (pc c).unsent = some c.number) :
    SysInv (acts ++ [(s.begin t caller pc addr).2]) (s.begin t caller pc addr).1 cur batch queue := by
  cases addr with
  | none =>
    exact h.silent h.memory h.waiter h.calls.skip rfl rfl rfl rfl rfl nofun rfl rfl
  | some a =>
    obtain ⟨hown, hstage, hunsent⟩ := hpc ⟨s.calls, caller, a⟩
    refine h.goes ⟨rfl, rfl, rfl, rfl, rfl⟩ rfl ?_ ?_ ?_
    · rw [hown]
      exact h.memory.alloc (haddr a rfl) t _
    · rw [update_same (by rw [hstage, hidle]; rfl)]
      exact h.waiter
    · rw [hunsent]
      exact h.calls.begin t

theorem SysInv.call (h : SysInv acts s cur batch queue) (hidle : s.pcs t = .idle) (job : Job)
    {addr : Option ℕ} (haddr : ∀ a ∈ addr, s.heap a = none) :
    SysInv (acts ++ [(s.call t job addr).2]) (s.call t job addr).1 cur batch queue := by
  have hskip : ∀ act : Act, act.silent = true →
      SysInv (acts ++ [act]) { s with calls := s.calls + 1 } cur batch queue := by
    intro act hact
    obtain ⟨hsent, hresult, hanswer, hreturned⟩ := Act.silent_spec hact
    exact h.silent h.memory h.waiter h.calls.skip rfl rfl hsent hresult hanswer
      (fun call status heq => absurd heq (hreturned call status)) rfl rfl
  cases job with
  | createChannel procInCb =>
    have h' : SysInv acts { s with nextChannelId := (s.nextChannelId + 1) % 2 ^ 64 } cur batch queue :=
      ⟨h.memory, h.cur_eq, h.waiter, h.calls, h.ending, h.accepted, h.answers, h.returned, h.table⟩
    exact h'.begin hidle _ haddr fun _ => ⟨rfl, rfl, rfl⟩
  | close id =>
    rw [Sys.call]
    split
    · exact hskip _ rfl
    · exact h.begin hidle _ haddr fun _ => ⟨rfl, rfl, rfl⟩
  | dealloc id =>
    rw [Sys.call]
    split
    · exact hskip _ rfl
    · exact h.begin hidle _ haddr fun _ => ⟨rfl, rfl, rfl⟩
  | shutdown =>
    rw [Sys.call]
    split
    · exact hskip _ rfl
    · refine h.goes ⟨rfl, rfl, rfl, rfl, rfl⟩ rfl ?_ ?_ (h.calls.begin t)
      · rw [update_same (by rw [hidle]; rfl)]
        exact h.memory
      · rw [update_same (by rw [hidle]; rfl)]
        exact h.waiter

/-- `proc_waiter_acquire`. -/
theorem SysInv.acquiring (h : SysInv acts s cur batch queue) {c : Call}
    (hpc : s.pcs t = .acquiring c) (addr : Option ℕ) : Goes acts cur batch (s.clientStep t addr) := by
  have hown : (s.pcs t).own = some (c.addr, c.sent false) := by
    rw [hpc]
    rfl
  rw [Sys.clientStep, hpc]
  dsimp only
  cases hbusy : s.cmdWaiterBusy with
  | true =>
    obtain ⟨hfree, hmemory⟩ := h.frees hown
    rw [if_pos rfl, hfree, Option.map_some]
    refine ⟨_, _, queue, rfl, ?_⟩
    refine h.goes ⟨rfl, rfl, rfl, rfl, rfl⟩ rfl hmemory ?_ (h.calls.drop t)
    rw [update_same (by rw [hpc]; rfl)]
    exact h.waiter
  | false =>
    rw [if_neg nofun]
    refine ⟨_, _, queue, rfl, ?_⟩
    refine h.goes ⟨rfl, rfl, rfl, rfl, rfl⟩ rfl ?_ ?_ ?_
    · rw [update_same (by rw [hpc]; rfl)]
      exact h.memory
    · have hwaiter := h.waiter
      rw [hbusy] at hwaiter
      exact hwaiter.acquire
    · rw [update_same (by rw [hpc]; rfl)]
      exact h.calls

/-- `rtp_sync_waiter_reset`. -/
theorem SysInv.resetting (h : SysInv acts s cur batch queue) {c : Call}
    (hpc : s.pcs t = .resetting c) (addr : Option ℕ) : Goes acts cur batch (s.clientStep t addr) := by
  have hown : (s.pcs t).own = some (c.addr, c.sent false) := by
    rw [hpc]
    rfl
  have hstage : (s.pcs t).stage = .taken := by
    rw [hpc]
    rfl
  obtain ⟨⟨val, next⟩, hcell, hval⟩ := Option.map_eq_some_iff.mp (h.memory.owned t _ hown)
  obtain rfl : val = c.sent false := hval
  have hread : s.heap c.addr = some ⟨c.sent false, next⟩ := hcell
  rw [Sys.clientStep, hpc]
  dsimp only
  rw [hread, Option.map_some]
  refine ⟨_, _, queue, rfl, ?_⟩
  refine h.goes ⟨rfl, rfl, rfl, rfl, rfl⟩ rfl ?_ ?_ ?_
  · refine h.memory.rewrite hown _ fun x hx => ?_
    obtain rfl := Option.some.inj hx
    exact ⟨rfl, rfl⟩
  · obtain ⟨hbusy, hasked, -⟩ := h.waiter.of_taken (.inl hstage)
    refine h.waiter.keep (fun hout => ?_) hbusy hasked (.inr ⟨rfl, rfl⟩)
    rw [Function.comp_apply, hstage] at hout
    cases hout
  · rw [update_same (by rw [hpc]; rfl)]
    exact h.calls

/-- `rtp_sync_waiter_wait`. -/
theorem SysInv.waiting (h : SysInv acts s cur batch queue) {c : Call}
    (hpc : s.pcs t = .waiting c) (addr : Option ℕ) : Goes acts cur batch (s.clientStep t addr) := by
  have hstage : (s.pcs t).stage = .waiting c.number := by
    rw [hpc]
    rfl
  cases hdone : s.cmdWaiter.done with
  | false =>
    refine ⟨s, .quiet, queue, ?_, h.silent h.memory h.waiter h.calls rfl rfl rfl rfl rfl nofun rfl rfl⟩
    rw [Sys.clientStep, hpc, waiterWait, hdone]
    rfl
  | true =>
    obtain ⟨hbusy, hanswered⟩ := h.waiter.of_waiting hstage
    obtain ⟨hasked, hanswer⟩ := hanswered hdone
    refine ⟨s.goto t (.releasing c (some s.cmdWaiter.status)), .returned c.number s.cmdWaiter.status,
      queue, ?_, h.silent ?_ ?_ ?_ rfl rfl rfl rfl rfl ?_ rfl rfl⟩
    · rw [Sys.clientStep, hpc, waiterWait, hdone]
      rfl
    · rw [comp_goto, update_same (by rw [hpc]; rfl)]
      exact h.memory
    · rw [comp_goto]
      refine h.waiter.keep (fun hout => ?_) hbusy hasked (.inl rfl)
      rw [Function.comp_apply, hstage] at hout
      cases hout
    · rw [comp_goto, update_same (by rw [hpc]; rfl)]
      exact h.calls
    · intro call status heq
      obtain ⟨rfl, rfl⟩ := Act.returned.inj heq
      exact h.answered hanswer

/-- `proc_waiter_release`. -/
theorem SysInv.releasing (h : SysInv acts s cur batch queue) {c : Call} {status : Option ℕ}
    (hpc : s.pcs t = .releasing c status) (addr : Option ℕ) :
    Goes acts cur batch (s.clientStep t addr) := by
  have hstage : (s.pcs t).stage = .taken := by
    rw [hpc]
    rfl
  -- wherever the thread goes, it has nothing any more
  have hgoes : ∀ pc' act, pc'.own = none → pc'.stage = .out → pc'.unsent = none →
      act.silent = true →
      SysInv (acts ++ [act]) (({ s with cmdWaiterBusy := false }).goto t pc') cur batch queue := by
    intro pc' act hown hout hunsent hact
    refine h.goes ⟨rfl, rfl, rfl, rfl, rfl⟩ hact ?_ ?_ ?_
    · rw [update_same (by rw [hown, hpc]; rfl)]
      exact h.memory
    · rw [hout]
      exact h.waiter.release hstage
    · rw [update_same (by rw [hunsent, hpc]; rfl)]
      exact h.calls
  rw [Sys.clientStep, hpc]
  dsimp only
  rw [Sys.released]
  cases c.caller with
  | close id =>
    dsimp only
    split
    · exact ⟨_, _, queue, rfl, hgoes _ _ rfl rfl rfl rfl⟩
    · exact ⟨_, _, queue, rfl, hgoes _ _ rfl rfl rfl rfl⟩
  | create _ _ | dealloc _ =>
    refine ⟨_, _, queue, rfl, hgoes _ _ rfl rfl rfl ?_⟩
    split <;> rfl

/-- A command with or without waiter is added to those on their way. -/
theorem asked_concat (pc : WorkerPc) (cur : Option (ℕ × Sent)) (batch queue : List (ℕ × Sent))
    (a : ℕ) (sent : Sent) :
    asked pc cur (batch ++ (queue ++ [(a, sent)])) =
      asked pc cur (batch ++ queue) ++ sent.asks.toList := by
  rw [asked, asked, ← List.append_assoc batch, filterMap_concat, List.append_assoc]

/-- `enqueue_command` accepts the command of a thread. -/
theorem SysInv.sends (h : SysInv acts s cur batch queue) {c : Call} {waiter : Bool}
    (hpc : s.pcs t = .enqueueing c waiter) (hopen : s.acceptingCommands = true) :
    ∃ cmdq heap, s.push c.addr = some { s with cmdq := cmdq, heap := heap } ∧
      ∀ closed pc, pc.own = none → pc.unsent = none →
        pc.stage = (if waiter then .waiting c.number else .out) →
        SysInv (acts ++ [.accepted (c.sent waiter)])
          (({ s with cmdq := cmdq, heap := heap, closed := closed } : Sys).goto t pc) cur batch
          (queue ++ [(c.addr, c.sent waiter)]) := by
  have hown : (s.pcs t).own = some (c.addr, c.sent waiter) := by
    rw [hpc]
    rfl
  obtain ⟨cmdq, heap, hpush, hmemory⟩ := h.memory.push hown
  refine ⟨cmdq, heap, by rw [Sys.push, hpush]; rfl, fun closed pc hnone hunsent hstage => ?_⟩
  refine h.client ?_ ?_ ?_ ?_ List.map_append rfl rfl nofun rfl rfl
  · rw [comp_goto, hnone]
    exact hmemory
  · rw [comp_goto, asked_concat]
    cases waiter with
    | true =>
      rw [hstage]
      exact h.waiter.send (by rw [Function.comp_apply, hpc]; rfl) c.number
    | false =>
      rw [update_same (by rw [hstage, hpc]; rfl), show (c.sent false).asks = none from rfl,
        Option.toList_none, List.append_nil]
      exact h.waiter
  · rw [comp_goto, hunsent]
    exact h.calls.send (by rw [Function.comp_apply, hpc]; rfl)
  · have hending := h.ending
    rw [hopen] at hending
    show EndInv s.shutdownQueued s.acceptingCommands _ _ _ _
    rw [hopen]
    refine hending.send ?_
    show c.caller.cmd ≠ .shutdown
    cases c.caller <;> nofun


/-- `enqueue_command`. -/
theorem SysInv.enqueueing (h : SysInv acts s cur batch queue) {c : Call} {waiter : Bool}
    (hpc : s.pcs t = .enqueueing c waiter) (addr : Option ℕ) :
    Goes acts cur batch (s.clientStep t addr) := by
  have hown : (s.pcs t).own = some (c.addr, c.sent waiter) := by
    rw [hpc]
    rfl
  rw [Sys.clientStep, hpc]
  dsimp only
  rw [Sys.enqueueCommand]
  cases hopen : s.acceptingCommands with
  | true =>
    obtain ⟨cmdq, heap, hpush, hsends⟩ := h.sends hpc hopen
    rw [if_pos rfl, hpush, Option.map_some]
    refine ⟨_, _, queue ++ [(c.addr, c.sent waiter)], rfl, ?_⟩
    cases waiter with
    | true => exact hsends _ _ rfl rfl rfl
    | false => cases c.caller <;> exact hsends _ _ rfl rfl rfl
  | false =>
    obtain ⟨hfree, hmemory⟩ := h.frees hown
    rw [if_neg nofun, hfree, Option.map_some]
    refine ⟨_, _, queue, rfl, ?_⟩
    cases waiter with
    | true =>
      obtain ⟨hbusy, hasked, -⟩ := h.waiter.of_taken (.inr (by rw [Function.comp_apply, hpc]; rfl))
      refine h.goes ⟨rfl, rfl, rfl, rfl, rfl⟩ rfl hmemory
        (h.waiter.keep (fun hout => ?_) hbusy hasked (.inl rfl)) (h.calls.drop t)
      rw [Function.comp_apply, hpc] at hout
      cases hout
    | false =>
      have hwaiter : WaiterInv s.cmdWaiterBusy s.cmdWaiter
          (Function.update (Pc.stage ∘ s.pcs) t Pc.idle.stage)
          (asked s.workerPc cur (batch ++ queue)) (completedOf acts) := by
        rw [update_same (by rw [hpc]; rfl)]
        exact h.waiter
      cases c.caller <;>
        exact h.goes ⟨rfl, rfl, rfl, rfl, rfl⟩ rfl hmemory hwaiter (h.calls.drop t)

/-- The section of `rtp_proc_shutdown_internal`. -/
theorem SysInv.shuttingDown (h : SysInv acts s cur batch queue) {number : ℕ}
    (hpc : s.pcs t = .shuttingDown number) {addr : Option ℕ} (haddr : ∀ a ∈ addr, s.heap a = none) :
    Goes acts cur batch (s.clientStep t addr) := by
  have hunsent : (s.pcs t).unsent = some number := by
    rw [hpc]
    rfl
  -- without a command the thread gives up its number
  have hgoes : ∀ pc' act, pc'.own = none → pc'.stage = .out → pc'.unsent = none →
      act.silent = true → SysInv (acts ++ [act]) (s.goto t pc') cur batch queue := by
    intro pc' act hown hstage hnone hact
    refine h.goes ⟨rfl, rfl, rfl, rfl, rfl⟩ hact ?_ ?_ ?_
    · rw [update_same (by rw [hown, hpc]; rfl)]
      exact h.memory
    · rw [update_same (by rw [hstage, hpc]; rfl)]
      exact h.waiter
    · rw [hnone]
      exact h.calls.drop t
  rw [Sys.clientStep, hpc]
  dsimp only
  unfold Sys.queueShutdown
  cases hqueued : s.shutdownQueued with
  | true => exact ⟨_, _, queue, rfl, hgoes _ _ rfl rfl rfl rfl⟩
  | false =>
    rw [if_neg nofun]
    cases addr with
    | none => exact ⟨_, _, queue, rfl, hgoes _ _ rfl rfl rfl rfl⟩
    | some a =>
      obtain ⟨cmdq, heap, hpush, hmemory⟩ :=
        (h.memory.alloc (haddr a rfl) t ⟨number, .shutdown, false⟩).push (Function.update_self t _ _)
      rw [Function.update_idem] at hmemory
      have hwrite : (s.write a (some ⟨⟨number, .shutdown, false⟩, none⟩)).push a =
          some { s with cmdq := cmdq, heap := heap } :=
        congrArg (Option.map fun p : Cmdq × (ℕ → Option (Cell Sent)) =>
          ({ s with cmdq := p.1, heap := p.2 } : Sys)) hpush
      dsimp only
      rw [hwrite, Option.map_some]
      refine ⟨_, _, queue ++ [(a, ⟨number, .shutdown, false⟩)], rfl, ?_⟩
      refine h.client ?_ ?_ ?_ ?_ List.map_append rfl rfl nofun rfl rfl
      · rw [comp_goto]
        exact hmemory
      · rw [comp_goto, update_same (by rw [hpc]; rfl), asked_concat]
        show WaiterInv _ _ _ (_ ++ []) _
        rw [List.append_nil]
        exact h.waiter
      · rw [comp_goto]
        exact h.calls.send hunsent
      · have hending := h.ending
        rw [hqueued] at hending
        exact hending.shutdown rfl

/-- **A step of a client.** -/
theorem SysInv.clientStep (h : SysInv acts s cur batch queue) (hpc : s.pcs t ≠ .idle)
    {addr : Option ℕ} (haddr : ∀ a ∈ addr, s.heap a = none) :
    Goes acts cur batch (s.clientStep t addr) := by
  cases hpc' : s.pcs t with
  | idle => exact absurd hpc' hpc
  | clearing c =>
    rw [Sys.clientStep, hpc']
    refine ⟨_, _, queue, rfl, h.same ⟨rfl, rfl, rfl, rfl, rfl⟩ rfl ?_ ?_ ?_ rfl⟩
    all_goals
      rw [hpc']
      rfl
  | acquiring c => exact h.acquiring hpc' addr
  | resetting c => exact h.resetting hpc' addr
  | enqueueing c waiter => exact h.enqueueing hpc' addr
  | waiting c => exact h.waiting hpc' addr
  | releasing c status => exact h.releasing hpc' addr
  | popping c id =>
    rw [Sys.clientStep, hpc']
    refine ⟨_, _, queue, rfl, h.same ⟨rfl, rfl, rfl, rfl, rfl⟩ rfl ?_ ?_ ?_ rfl⟩
    all_goals
      rw [hpc']
      rfl
  | shuttingDown number => exact h.shuttingDown hpc' haddr
  | joining =>
    rw [Sys.clientStep, hpc']
    dsimp only
    split
    · refine ⟨_, _, queue, rfl, h.same ⟨rfl, rfl, rfl, rfl, rfl⟩ rfl ?_ ?_ ?_ rfl⟩
      all_goals
        rw [hpc']
        rfl
    · exact ⟨_, _, queue, rfl, h.silent h.memory h.waiter h.calls rfl rfl rfl rfl rfl nofun rfl rfl⟩

/-! ### Steps of the worker -/

/-- What the worker leaves as it is. -/
structure Apart (s' s : Sys) : Prop where
  pcs : s'.pcs = s.pcs
  busy : s'.cmdWaiterBusy = s.cmdWaiterBusy
  calls : s'.calls = s.calls
  queued : s'.shutdownQueued = s.shutdownQueued
  accepting : s'.acceptingCommands = s.acceptingCommands

/-- A step of the worker. -/
theorem SysInv.worker (h : SysInv acts s cur batch queue) (hs : Apart s' s)
    (hmemory : Memory s'.heap s'.cmdq s'.workerPc.rest (Pc.own ∘ s.pcs) cur' batch' queue')
    (hcur : cur'.map Prod.fst = s'.workerPc.cur)
    (hwaiter : WaiterInv s.cmdWaiterBusy s'.cmdWaiter (Pc.stage ∘ s.pcs)
      (asked s'.workerPc cur' (batch' ++ queue')) (completedOf acts ++ act.answer.toList))
    (hseen : s'.worker.phase.shutdownSeen = true →
      ∃ sent ∈ (processedOf acts ++ act.result.toList).map Prod.fst, sent.cmd = .shutdown)
    (hplace : s'.workerPc.inPhase s'.worker.phase = true)
    (haccepted : (batch ++ queue).map Prod.snd =
      act.result.toList.map Prod.fst ++ (batch' ++ queue').map Prod.snd)
    (hanswers : owed s.workerPc cur ++
      act.result.toList.filterMap (fun p => p.1.asks.map fun call => (call, p.2.status)) =
      act.answer.toList ++ owed s'.workerPc cur')
    (htable : ∃ t, WorkerInv s'.worker.self t) (hsent : act.sent = none)
    (hreturned : ∀ call status, act ≠ .returned call status) :
    SysInv (acts ++ [act]) s' cur' batch' queue' := by
  have hsame : acceptedOf (acts ++ [act]) = acceptedOf acts := by
    rw [acceptedOf_concat, hsent, Option.toList_none, List.append_nil]
  refine ⟨?_, hcur, ?_, ?_, ⟨?_, ?_, ?_, ?_, hplace⟩, ?_, ?_,
    returned_concat h.returned fun call status heq => absurd heq (hreturned call status), htable⟩
  · rw [hs.pcs]
    exact hmemory
  · rw [hs.pcs, hs.busy, completedOf_concat]
    exact hwaiter
  · rw [hs.pcs, hs.calls, hsame]
    exact h.calls
  · rw [hs.queued, hs.accepting]
    exact h.ending.accepting_eq
  · rw [hs.queued, hsame]
    exact h.ending.before
  · rw [hs.queued, hsame]
    exact h.ending.last
  · rw [processedOf_concat]
    exact hseen
  · rw [hsame, h.accepted, haccepted, processedOf_concat, List.map_append (f := Prod.fst),
      List.append_assoc]
  · rw [processedOf_concat, completedOf_concat, List.filterMap_append, h.answers, List.append_assoc,
      hanswers, List.append_assoc]

/-- A step of the worker that processes and completes nothing. -/
theorem SysInv.workerQuiet (h : SysInv acts s cur batch queue) (hs : Apart s' s)
    (hwaiter : s'.cmdWaiter = s.cmdWaiter)
    (hmemory : Memory s'.heap s'.cmdq s'.workerPc.rest (Pc.own ∘ s.pcs) cur' batch' queue')
    (hcur : cur'.map Prod.fst = s'.workerPc.cur) (hpending : batch' ++ queue' = batch ++ queue)
    (howed : owed s'.workerPc cur' = owed s.workerPc cur)
    (hseen : s'.worker.phase.shutdownSeen = s.worker.phase.shutdownSeen)
    (hplace : s'.workerPc.inPhase s'.worker.phase = true)
    (htable : ∃ t, WorkerInv s'.worker.self t) : SysInv (acts ++ [.quiet]) s' cur' batch' queue' := by
  refine h.worker hs hmemory hcur ?_ ?_ hplace ?_ ?_ htable rfl nofun
  · rw [hwaiter, asked, howed, hpending]
    exact h.waiter.mono (List.subset_append_left _ _)
  · rw [hseen]
    intro hseen
    obtain ⟨sent, hmem, hsent⟩ := h.ending.seen hseen
    rw [List.map_append]
    exact ⟨sent, List.mem_append_left _ hmem, hsent⟩
  · rw [hpending]
    rfl
  · rw [howed]
    exact List.append_nil _

/-- The worker has no command in its hands. -/
theorem SysInv.cur_none (h : SysInv acts s cur batch queue) (hcur : s.workerPc.cur = none) :
    cur = none :=
  Option.map_eq_none_iff.mp (h.cur_eq.trans hcur)

/-- The command that the worker has in its hands. -/
theorem SysInv.cur_some (h : SysInv acts s cur batch queue) {a : ℕ} (hcur : s.workerPc.cur = some a) :
    ∃ sent next, cur = some (a, sent) ∧ s.heap a = some ⟨sent, next⟩ := by
  obtain ⟨⟨b, sent⟩, rfl, hb⟩ := Option.map_eq_some_iff.mp (h.cur_eq.trans hcur)
  obtain rfl : b = a := hb
  obtain ⟨⟨val, next⟩, hcell, hval⟩ := Option.map_eq_some_iff.mp (h.memory.held _ rfl)
  obtain rfl : val = sent := hval
  exact ⟨val, next, rfl, hcell⟩

/-- Behind `CMD_SHUTDOWN` nothing is left. -/
theorem SysInv.pending_nil (h : SysInv acts s cur batch queue)
    (hseen : s.worker.phase.shutdownSeen = true) : batch = [] ∧ queue = [] := by
  obtain ⟨sent, hmem, hsent⟩ := h.ending.seen hseen
  exact List.append_eq_nil_iff.mp
    (List.map_eq_nil_iff.mp (h.ending.eq_nil h.accepted hmem hsent))

/-- `workerStep` in the system. -/
theorem SysInv.work (h : SysInv acts s cur batch queue) {event : WorkerEvent}
    (hfits : event.fits s.worker.phase = true) :
    ∃ w out, workerStep s.worker event = some (w, out) ∧ (∃ t, WorkerInv w.self t) ∧
      s.work event = some ({ s with worker := w }, out) := by
  obtain ⟨t, ht⟩ := h.table
  obtain ⟨w, out, t', hstep, ht', -, -⟩ := workerStep_spec ht hfits
  refine ⟨w, out, hstep, ⟨t', ht'⟩, ?_⟩
  rw [Sys.work, hstep]
  rfl

/-- The phase behind a step of the worker that is not a command. -/
theorem workerStep_phase {w w' : Worker} {event : WorkerEvent} {out : CmdOut}
    (hstep : workerStep w event = some (w', out)) (hcmd : ∀ cmd env, event ≠ .command cmd env) :
    w'.phase.shutdownSeen = w.phase.shutdownSeen ∧ w'.phase.workerPc.inPhase w'.phase = true := by
  obtain ⟨self, phase⟩ := w
  cases event with
  | command cmd env => exact absurd rfl (hcmd cmd env)
  | batchEnd nowNs =>
    cases phase with
    | commands shutdownSeen =>
      cases shutdownSeen with
      | false =>
        obtain ⟨rfl, -⟩ := Prod.mk.inj (Option.some.inj hstep)
        exact ⟨rfl, rfl⟩
      | true =>
        obtain ⟨self', -, heq⟩ := Option.map_eq_some_iff.mp hstep
        obtain ⟨rfl, -⟩ := Prod.mk.inj heq
        exact ⟨rfl, rfl⟩
    | due _ | wait | exited => cases hstep
  | dueRound result nextNow =>
    cases phase with
    | due nowNs =>
      obtain ⟨p, -, heq⟩ := Option.map_eq_some_iff.mp hstep
      obtain ⟨rfl, -⟩ := Prod.mk.inj heq
      dsimp only
      cases p.2.1 with
      | none => exact ⟨rfl, rfl⟩
      | some _ => exact ⟨rfl, rfl⟩
    | commands _ | wait | exited => cases hstep
  | woken =>
    cases phase with
    | wait =>
      rw [workerStep] at hstep
      dsimp only at hstep
      split at hstep
      · obtain ⟨rfl, -⟩ := Prod.mk.inj (Option.some.inj hstep)
        exact ⟨rfl, rfl⟩
      · obtain ⟨c, -, heq⟩ := Option.map_eq_some_iff.mp hstep
        obtain ⟨rfl, -⟩ := Prod.mk.inj heq
        exact ⟨rfl, rfl⟩
    | commands _ | due _ | exited => cases hstep

/-- In `process_commands`. -/
def WorkerPc.processing : WorkerPc → Bool
  | .detaching | .atCmd _ | .stealing _ _ _ | .completing _ _ _ | .freeing _ _ => true
  | _ => false

theorem SysInv.phase_eq (h : SysInv acts s cur batch queue) (hpc : s.workerPc.processing = true) :
    ∃ seen, s.worker.phase = .commands seen := by
  have hplace := h.ending.place
  cases hworker : s.workerPc with
  | detaching | atCmd _ | stealing _ _ _ | completing _ _ _ | freeing _ _ =>
    rw [hworker] at hplace
    cases hphase : s.worker.phase with
    | commands seen => exact ⟨seen, rfl⟩
    | due _ | wait | exited =>
      rw [hphase] at hplace
      cases hplace
  | outside | leaving | dropping _ | finished =>
    rw [hworker] at hpc
    cases hpc

/-- What a step of the worker comes to. -/
def Moves (acts : List Act) (r : Option (Sys × Act)) : Prop :=
  ∃ s' act cur' batch' queue', r = some (s', act) ∧ SysInv (acts ++ [act]) s' cur' batch' queue'

/-- `detach_commands`. -/
theorem SysInv.detaching (h : SysInv acts s cur batch queue) (hpc : s.workerPc = .detaching)
    (env : CmdEnv) : Moves acts (s.workerMove env) := by
  obtain rfl := h.cur_none (by rw [hpc]; rfl)
  have hmemory := h.memory
  rw [hpc] at hmemory
  obtain ⟨rfl, hdetached⟩ := hmemory.detach
  obtain ⟨seen, hphase⟩ := h.phase_eq (by rw [hpc]; rfl)
  rw [Sys.workerMove, hpc]
  refine ⟨_, _, none, queue, [], rfl, h.workerQuiet ⟨rfl, rfl, rfl, rfl, rfl⟩ rfl hdetached rfl
    (List.append_nil _) ?_ rfl ?_ h.table⟩
  · rw [hpc]
    rfl
  · show WorkerPc.inPhase _ s.worker.phase = true
    rw [hphase]
    rfl

/-- A step of the worker without commands. -/
theorem SysInv.outside (h : SysInv acts s cur batch queue) (hcur : s.workerPc.cur = none)
    (hrest : s.workerPc.rest = none) {event : WorkerEvent} (hfits : event.fits s.worker.phase = true)
    (hcmd : ∀ cmd env, event ≠ .command cmd env) :
    Moves acts ((s.work event).map fun p => (p.1.goWorker p.1.worker.phase.workerPc, .quiet)) := by
  obtain rfl := h.cur_none hcur
  obtain ⟨w, out, hstep, htable, hwork⟩ := h.work hfits
  obtain ⟨hseen, hplace⟩ := workerStep_phase hstep hcmd
  have hmemory := h.memory
  rw [hrest] at hmemory
  rw [hwork, Option.map_some]
  -- no phase starts with a command at hand
  have hpc : ∀ phase : Phase, phase.workerPc.rest = none ∧ phase.workerPc.cur = none := by
    intro phase
    cases phase <;> exact ⟨rfl, rfl⟩
  refine ⟨_, _, none, batch, queue, rfl, h.workerQuiet ⟨rfl, rfl, rfl, rfl, rfl⟩ rfl ?_ (hpc _).2.symm rfl
    rfl hseen hplace htable⟩
  show Memory _ _ (w.phase.workerPc.rest) _ _ _ _
  rw [(hpc _).1]
  exact hmemory

/-- The worker processes a command. -/
theorem SysInv.atCmd (h : SysInv acts s cur batch queue) {a : ℕ} (hpc : s.workerPc = .atCmd (some a))
    (env : CmdEnv) : Moves acts (s.workerMove env) := by
  obtain rfl := h.cur_none (by rw [hpc]; rfl)
  have hmemory := h.memory
  rw [hpc] at hmemory
  obtain ⟨sent, next, batch', rfl, hcell, hnext⟩ := hmemory.next
  obtain ⟨seen, hphase⟩ := h.phase_eq (by rw [hpc]; rfl)
  obtain ⟨w, out, hstep, htable, hwork⟩ := @SysInv.work _ _ _ _ _ h (.command sent.cmd env)
    (by rw [hphase]; rfl)
  have hprocessed : ∀ call status, Act.processed sent out ≠ .returned call status := nofun
  have hphase' : w.phase = .commands (seen || sent.cmd = .shutdown) := by
    rw [workerStep, hphase] at hstep
    obtain ⟨p, -, heq⟩ := Option.map_eq_some_iff.mp hstep
    obtain ⟨rfl, -⟩ := Prod.mk.inj heq
    rfl
  rw [Sys.workerMove, hpc]
  dsimp only
  rw [hcell, Option.bind_some]
  dsimp only
  rw [hwork, Option.map_some]
  have howed := @owed_some (.stealing a next out) out.status rfl a sent
  refine ⟨_, _, some (a, sent), batch', queue, rfl, h.worker ⟨rfl, rfl, rfl, rfl, rfl⟩ hnext rfl ?_ ?_ ?_
    rfl ?_ htable rfl hprocessed⟩
  · have hwaiter := h.waiter
    rw [hpc] at hwaiter
    show WaiterInv _ _ _ (asked (.stealing a next out) _ _) (_ ++ [])
    rw [asked_read, List.append_nil]
    exact hwaiter
  · show w.phase.shutdownSeen = true → _
    rw [hphase']
    intro hseen
    rw [List.map_append]
    rcases Bool.or_eq_true_iff.mp hseen with hseen | hseen
    · obtain ⟨x, hmem, hx⟩ := h.ending.seen (by rw [hphase]; exact hseen)
      exact ⟨x, List.mem_append_left _ hmem, hx⟩
    · exact ⟨sent, List.mem_append_right _ List.mem_cons_self, of_decide_eq_true hseen⟩
  · show WorkerPc.inPhase _ w.phase = true
    rw [hphase']
    rfl
  · rw [hpc]
    show [] ++ ([(sent, out)] : List (Sent × CmdOut)).filterMap _ = [] ++ owed (.stealing a next out) _
    rw [howed]
    cases hasks : sent.asks with
    | none => rw [List.filterMap_cons_none (by rw [hasks]; rfl)]; rfl
    | some call => rw [List.filterMap_cons_some (by rw [hasks]; rfl)]; rfl

/-- `proc_set_close_exception_steal` does not touch what the invariant is about. -/
theorem SysInv.stealing (h : SysInv acts s cur batch queue) {a : ℕ} {next : Option ℕ} {out : CmdOut}
    (hpc : s.workerPc = .stealing a next out) (env : CmdEnv) : Moves acts (s.workerMove env) := by
  obtain ⟨sent, link, rfl, hcell⟩ := @SysInv.cur_some _ _ _ _ _ h a (by rw [hpc]; rfl)
  obtain ⟨seen, hphase⟩ := h.phase_eq (by rw [hpc]; rfl)
  have hmemory := h.memory
  rw [hpc] at hmemory
  rw [Sys.workerMove, hpc]
  dsimp only
  rw [hcell, Option.map_some]
  obtain ⟨exc, hsteal⟩ : ∃ exc, s.steal sent.waiter out.exc = { s with closeExc := exc } := by
    unfold Sys.steal
    split
    · exact ⟨out.exc, rfl⟩
    · exact ⟨s.closeExc, rfl⟩
  dsimp only
  rw [hsteal]
  refine ⟨_, _, some (a, sent), batch, queue, rfl, h.workerQuiet ⟨rfl, rfl, rfl, rfl, rfl⟩ rfl hmemory rfl
    rfl ?_ rfl ?_ h.table⟩
  · rw [hpc, owed_some rfl, owed_some rfl]
  · show WorkerPc.inPhase _ s.worker.phase = true
    rw [hphase]
    rfl

/-- `rtp_sync_waiter_complete`. -/
theorem SysInv.completing (h : SysInv acts s cur batch queue) {a status : ℕ} {next : Option ℕ}
    (hpc : s.workerPc = .completing a next status) (env : CmdEnv) :
    Moves acts (s.workerMove env) := by
  obtain ⟨sent, link, rfl, hcell⟩ := @SysInv.cur_some _ _ _ _ _ h a (by rw [hpc]; rfl)
  obtain ⟨seen, hphase⟩ := h.phase_eq (by rw [hpc]; rfl)
  have hplace : (WorkerPc.freeing a next).inPhase s.worker.phase = true := by
    rw [hphase]
    rfl
  have hmemory := h.memory
  have howed := @owed_some (.completing a next status) status rfl a sent
  have hfreed := @owed_none (.freeing a next) rfl (some (a, sent))
  rw [hpc] at hmemory
  rw [Sys.workerMove, hpc]
  dsimp only
  rw [hcell, Option.map_some]
  dsimp only
  cases hwaiter : sent.waiter with
  | true =>
    have hasks : sent.asks = some sent.call := by
      rw [Sent.asks, hwaiter]
      rfl
    rw [hasks] at howed
    rw [if_pos rfl]
    refine ⟨_, _, some (a, sent), batch, queue, rfl, h.worker ⟨rfl, rfl, rfl, rfl, rfl⟩ hmemory rfl ?_ ?_
      hplace rfl ?_ h.table rfl nofun⟩
    · have hinv := h.waiter
      rw [hpc, asked, howed] at hinv
      show WaiterInv _ _ _ (asked (.freeing a next) _ _) _
      rw [asked, hfreed]
      exact hinv.complete status
    · exact fun hs => (List.append_nil (processedOf acts)).symm ▸ h.ending.seen hs
    · rw [hpc, howed]
      show _ = _ ++ owed (.freeing a next) _
      rw [hfreed]
      rfl
  | false =>
    have hasks : sent.asks = none := by
      rw [Sent.asks, hwaiter]
      rfl
    rw [hasks] at howed
    rw [if_neg nofun]
    refine ⟨_, _, some (a, sent), batch, queue, rfl, h.workerQuiet ⟨rfl, rfl, rfl, rfl, rfl⟩ rfl hmemory
      rfl rfl ?_ rfl hplace h.table⟩
    rw [hpc, howed]
    exact hfreed

/-- `free_command`. -/
theorem SysInv.freeing (h : SysInv acts s cur batch queue) {a : ℕ} {next : Option ℕ}
    (hpc : s.workerPc = .freeing a next) (env : CmdEnv) : Moves acts (s.workerMove env) := by
  obtain ⟨sent, link, rfl, hcell⟩ := @SysInv.cur_some _ _ _ _ _ h a (by rw [hpc]; rfl)
  obtain ⟨seen, hphase⟩ := h.phase_eq (by rw [hpc]; rfl)
  have hmemory := h.memory
  rw [hpc] at hmemory
  rw [Sys.workerMove, hpc]
  dsimp only
  rw [Sys.free, hcell, Option.map_some, Option.map_some]
  refine ⟨_, _, none, batch, queue, rfl, h.workerQuiet ⟨rfl, rfl, rfl, rfl, rfl⟩ rfl hmemory.freeCur rfl
    rfl ?_ rfl ?_ h.table⟩
  · rw [hpc]
    exact (@owed_none (.freeing a next) rfl (some (a, sent))).symm
  · show WorkerPc.inPhase _ s.worker.phase = true
    rw [hphase]
    rfl

/-- Behind the loop there is nothing to free. -/
theorem SysInv.leaving (h : SysInv acts s cur batch queue)
    (hpc : s.workerPc = .leaving ∨ ∃ cmd, s.workerPc = .dropping cmd) (env : CmdEnv) :
    Moves acts (s.workerMove env) := by
  have hcur : s.workerPc.cur = none := by
    rcases hpc with hpc | ⟨cmd, hpc⟩ <;> rw [hpc] <;> rfl
  have howed : owed s.workerPc none = [] := rfl
  have hphase : s.worker.phase = .exited := by
    have hplace := h.ending.place
    cases hphase : s.worker.phase with
    | exited => rfl
    | commands _ | due _ | wait =>
      rw [hphase] at hplace
      rcases hpc with hpc | ⟨cmd, hpc⟩ <;> rw [hpc] at hplace <;> cases hplace
  obtain rfl := h.cur_none hcur
  obtain ⟨rfl, rfl⟩ := h.pending_nil (by rw [hphase]; rfl)
  have hmemory := h.memory
  rcases hpc with hpc | ⟨cmd, hpc⟩
  · rw [hpc] at hmemory
    rw [Sys.workerMove, hpc]
    refine ⟨_, _, none, [], [], rfl, h.workerQuiet ⟨rfl, rfl, rfl, rfl, rfl⟩ rfl hmemory.detach.2 rfl rfl
      rfl rfl ?_ h.table⟩
    show WorkerPc.inPhase _ s.worker.phase = true
    rw [hphase]
    rfl
  · rw [hpc] at hmemory
    cases cmd with
    | some a =>
      obtain ⟨sent, next, batch', heq, -⟩ := hmemory.next
      cases heq
    | none =>
      rw [Sys.workerMove, hpc]
      refine ⟨_, _, none, [], [], rfl, h.workerQuiet ⟨rfl, rfl, rfl, rfl, rfl⟩ rfl hmemory rfl rfl rfl rfl
        ?_ h.table⟩
      show WorkerPc.inPhase _ s.worker.phase = true
      rw [hphase]
      rfl

/-- **A step of the worker.** -/
theorem SysInv.workerMove (h : SysInv acts s cur batch queue) (hpc : s.workerPc ≠ .finished)
    (env : CmdEnv) : Moves acts (s.workerMove env) := by
  cases hpc' : s.workerPc with
  | detaching => exact h.detaching hpc' env
  | atCmd cmd =>
    cases cmd with
    | some a => exact h.atCmd hpc' env
    | none =>
      obtain ⟨seen, hphase⟩ := h.phase_eq (by rw [hpc']; rfl)
      rw [Sys.workerMove, hpc']
      exact h.outside (by rw [hpc']; rfl) (by rw [hpc']; rfl) (by rw [hphase]; rfl) nofun
  | stealing cmd next out => exact h.stealing hpc' env
  | completing cmd next status => exact h.completing hpc' env
  | freeing cmd next => exact h.freeing hpc' env
  | outside =>
    have hplace := h.ending.place
    rw [hpc'] at hplace
    rw [Sys.workerMove, hpc']
    dsimp only
    rw [Sys.workOutside]
    refine h.outside (by rw [hpc']; rfl) (by rw [hpc']; rfl) ?_ ?_
    · cases hphase : s.worker.phase with
      | due nowNs => rfl
      | wait => rfl
      | commands _ | exited =>
        rw [hphase] at hplace
        cases hplace
    · cases s.worker.phase <;> nofun
  | leaving => exact h.leaving (.inl hpc') env
  | dropping cmd => exact h.leaving (.inr ⟨cmd, hpc'⟩) env
  | finished => exact absurd hpc' hpc

/-- When the worker has left its loop. -/
theorem SysInv.exited (h : SysInv acts s cur batch queue) (hphase : s.worker.phase = .exited) :
    s.cmdq.head = none ∧ acceptedOf acts = (processedOf acts).map Prod.fst ∧
      ∀ p ∈ processedOf acts, p.1.waiter = true → .completed p.1.call p.2.status ∈ acts := by
  obtain ⟨rfl, rfl⟩ := h.pending_nil (by rw [hphase]; rfl)
  have hcur : s.workerPc.cur = none := by
    have hplace := h.ending.place
    rw [hphase] at hplace
    cases hpc : s.workerPc with
    | detaching | atCmd _ | outside | leaving | dropping _ | finished => rfl
    | stealing _ _ _ | completing _ _ _ | freeing _ _ =>
      rw [hpc] at hplace
      cases hplace
  obtain rfl := h.cur_none hcur
  refine ⟨h.memory.queued.lists, h.accepted.trans (List.append_nil _), fun p hp hwaiter => ?_⟩
  have hall : (p.1.call, p.2.status) ∈ completedOf acts ++ [] := by
    refine h.answers ▸ List.mem_filterMap.mpr ⟨p, hp, ?_⟩
    rw [Sent.asks_eq_some.mpr ⟨hwaiter, rfl⟩]
    rfl
  rw [List.append_nil] at hall
  exact mem_completedOf.mp hall

/-- `calloc` returns memory that is not in use. -/
theorem fresh_of_all {addr : Option ℕ} (haddr : (addr.all fun a => (s.heap a).isNone) = true) :
    ∀ a ∈ addr, s.heap a = none := by
  rintro a rfl
  exact Option.isNone_iff_eq_none.mp haddr

/-- **A step of the system.** -/
theorem SysInv.step (h : SysInv acts s cur batch queue) {event : Event}
    (hfits : event.fits s = true) :
    ∃ s' act cur' batch' queue', sysStep s event = some (s', act) ∧
      SysInv (acts ++ [act]) s' cur' batch' queue' := by
  cases event with
  | call t job addr =>
    obtain ⟨hidle, haddr⟩ := Bool.and_eq_true_iff.mp hfits
    refine ⟨_, _, cur, batch, queue, ?_, h.call (of_decide_eq_true hidle) job (fresh_of_all haddr)⟩
    rw [sysStep, if_pos (of_decide_eq_true hidle)]
  | client t addr =>
    obtain ⟨hidle, haddr⟩ := Bool.and_eq_true_iff.mp hfits
    obtain ⟨s', act, queue', hstep, hinv⟩ := h.clientStep (of_decide_eq_true hidle) (fresh_of_all haddr)
    exact ⟨s', act, cur, batch, queue', hstep, hinv⟩
  | worker env => exact h.workerMove (of_decide_eq_true hfits) env

end steps

/-! ### Runs -/

theorem sysInv_of_run {events : List Event}
    (hfits : Always sysStep (fun s event => event.fits s = true) sysStart events) :
    ∃ s acts, run sysStep sysStart events = some (s, acts) ∧
      ∃ cur batch queue, SysInv acts s cur batch queue := by
  refine run_total (fun _ => True) (fun _ acts s => ∃ cur batch queue, SysInv acts s cur batch queue)
    (fun _ => trivial) ⟨none, [], [], sysInv_start⟩ ?_ trivial hfits
  rintro events acts s event - ⟨cur, batch, queue, hinv⟩ hfit
  obtain ⟨s', act, cur', batch', queue', hstep, hinv'⟩ := hinv.step hfit
  exact ⟨s', act, hstep, cur', batch', queue', hinv'⟩

/-- **The command protocol.**  In every run of any number of clients and the worker:
* the commands accepted are those processed, in the order in which they were pushed, and
  then those that the worker comes to in its batch and in the queue; each call sends at
  most one of them;
* nothing is accepted behind `CMD_SHUTDOWN`;
* when the worker has left its loop the queue is empty, every command was processed, and
  every waiter was completed with the status of its command;
* a wait that returns does so behind the processing of the call's own command, with its
  status. -/
theorem sysRun_commands {events : List Event}
    (hfits : Always sysStep (fun s event => event.fits s = true) sysStart events) :
    ∃ s acts, run sysStep sysStart events = some (s, acts) ∧
      (∃ batch queue, Listed s.heap s.workerPc.rest batch ∧ Listed s.heap s.cmdq.head queue ∧
        acceptedOf acts = (processedOf acts).map Prod.fst ++ (batch ++ queue).map Prod.snd) ∧
      ((acceptedOf acts).map Sent.call).Nodup ∧
      (∀ pre sent post, acceptedOf acts = pre ++ sent :: post → sent.cmd = .shutdown → post = []) ∧
      (s.worker.phase = .exited → s.cmdq.head = none ∧
        acceptedOf acts = (processedOf acts).map Prod.fst ∧
        ∀ p ∈ processedOf acts, p.1.waiter = true → .completed p.1.call p.2.status ∈ acts) ∧
      ∀ pre call status post, acts = pre ++ .returned call status :: post →
        ∃ sent out, .processed sent out ∈ pre ∧ sent.call = call ∧ sent.waiter = true ∧
          out.status = status := by
  obtain ⟨s, acts, hrun, cur, batch, queue, hinv⟩ := sysInv_of_run hfits
  refine ⟨s, acts, hrun, ⟨batch, queue, hinv.memory.batched, hinv.memory.queued, hinv.accepted⟩,
    hinv.calls.nodup, ?_, hinv.exited, ?_⟩
  · intro pre sent post heq hsent
    have hsplit : acceptedOf acts = (pre ++ [sent]) ++ post := by
      rw [heq, List.append_assoc]
      rfl
    exact hinv.ending.eq_nil hsplit (List.mem_append_right _ List.mem_cons_self) hsent
  · intro pre call status post heq
    obtain ⟨⟨sent, out⟩, hmem, hasks, hstatus⟩ := hinv.returned pre call status post heq
    obtain ⟨hwaiter, hcall⟩ := Sent.asks_eq_some.mp hasks
    exact ⟨sent, out, mem_processedOf.mp hmem, hcall, hwaiter, hstatus⟩

/-- Two threads create a channel; one waits while the other finds the waiter busy, and
later closes the channel, with the command at the address of the first one.  Then
`shutdown`. -/
def sharedRun : List Event :=
  let env : CmdEnv := ⟨some 1000, 5, .pyNone⟩
  [.call 0 (.createChannel 7) (some 50), .client 0 none, .client 0 none, .client 0 none,
    .call 1 (.createChannel 8) (some 60), .client 1 none, .client 0 none,
    .worker env, .worker env, .worker env, .worker env, .client 0 none, .worker env, .client 0 none,
    .call 1 (.close 1) (some 50), .client 1 none, .client 1 none, .client 1 none, .client 1 none,
    .call 0 .shutdown none, .client 0 (some 60)] ++
  List.replicate 13 (.worker env) ++ [.client 1 none]

theorem sysRun_commands_shared :
    ∃ s acts, run sysStep sysStart sharedRun = some (s, acts) ∧ s.worker.phase = .exited ∧
      acceptedOf acts = (processedOf acts).map Prod.fst := by
  obtain ⟨s, acts, hrun, -, -, -, hexited, -⟩ := sysRun_commands
    (by decide : Always sysStep (fun s event => event.fits s = true) sysStart sharedRun)
  have hphase : s.worker.phase = .exited := by
    have := congrArg (Option.map fun p => p.1.worker.phase) hrun
    exact Option.some.inj (this.symm.trans (by decide))
  exact ⟨s, acts, hrun, hphase, (hexited hphase).2.1⟩

end RtpProc
