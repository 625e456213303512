/-
The command queue and the waiter shared by the Python modules (`src/rtp_sync.c`).

A command is a record on the heap with a pointer to the next one; what else is in it
is the caller's.  The queue is a pointer to the first record and one to the last.
The functions run with the lock of the queue or of the waiter held, so each of them
is one step; `none` stands for an access to a record that was freed.

* `WaiterInv` — one waiter that many threads share: at most one of them has it, and of the
  commands on their way at most the one of this thread does;
* `Listed` — the records one comes to from a pointer, with what they hold;
* `cmdqPush_spec`, `Listed.head` — pushing puts a record behind the others, and the
  worker meets them in this order.
-/
import LibRtpSynth.Linked

open Linked

namespace RtpSync

/-! ### The waiter -/

/-- `rtp_sync_waiter`. -/
structure Waiter where
  done : Bool
  status : ℕ
  deriving DecidableEq, Repr

/-- `rtp_sync_waiter_reset`, and the waiter after `rtp_sync_waiter_init`. -/
def waiterReset : Waiter := ⟨false, 0⟩

/-- `rtp_sync_waiter_complete`. -/
def waiterComplete (status : ℕ) : Waiter := ⟨true, status⟩

/-- `rtp_sync_waiter_wait`, each time it gets the lock: it returns, or it sleeps on. -/
def waiterWait (waiter : Waiter) : Option ℕ := if waiter.done then some waiter.status else none

/-! ### One waiter for many threads -/

section waiter

variable {κ : Type*}

/-- How far a thread is with the waiter; a call is told by a value of `κ`. -/
inductive Stage (κ : Type*)
  | out
  | taken
  | ready
  | waiting (call : κ)

/-- The one waiter: at most one thread has it, and of the commands on their way at most
the one of this thread does. -/
inductive WaiterInv (busy : Bool) (waiter : Waiter) (stage : ℕ → Stage κ) (asked : List κ)
    (answers : List (κ × ℕ)) : Prop
  | free (hbusy : busy = false) (hout : ∀ t, stage t = .out) (hasked : asked = [])
  | held (t : ℕ) (hbusy : busy = true) (hout : ∀ t', t' ≠ t → stage t' = .out)
      (hstage : stage t = .taken ∨ stage t = .ready ∧ waiter.done = false) (hasked : asked = [])
  | sent (t : ℕ) (call : κ) (hbusy : busy = true) (hout : ∀ t', t' ≠ t → stage t' = .out)
      (hstage : stage t = .waiting call) (hdone : waiter.done = false) (hasked : asked = [call])
  | answered (t : ℕ) (call : κ) (hbusy : busy = true) (hout : ∀ t', t' ≠ t → stage t' = .out)
      (hstage : stage t = .waiting call) (hdone : waiter.done = true) (hasked : asked = [])
      (hanswer : (call, waiter.status) ∈ answers)

variable {busy : Bool} {waiter : Waiter} {stage : ℕ → Stage κ} {asked : List κ}
  {answers answers' : List (κ × ℕ)} {t : ℕ}

theorem eq_of_stage {u : ℕ} (hout : ∀ t', t' ≠ u → stage t' = .out) (ht : stage t ≠ .out) : t = u := by
  by_contra hne
  exact ht (hout t hne)

/-- A thread that is not out has the waiter. -/
theorem WaiterInv.out_of_ne (h : WaiterInv busy waiter stage asked answers) (ht : stage t ≠ .out) :
    ∀ t', t' ≠ t → stage t' = .out := by
  cases h with
  | free _ hout _ => exact absurd (hout t) ht
  | held u _ hout _ _ | sent u _ _ hout _ _ _ | answered u _ _ hout _ _ _ _ =>
    obtain rfl := eq_of_stage hout ht
    exact hout

theorem WaiterInv.mono (h : WaiterInv busy waiter stage asked answers) (hsub : answers ⊆ answers') :
    WaiterInv busy waiter stage asked answers' := by
  cases h with
  | free hbusy hout hasked => exact .free hbusy hout hasked
  | held t hbusy hout hstage hasked => exact .held t hbusy hout hstage hasked
  | sent t call hbusy hout hstage hdone hasked => exact .sent t call hbusy hout hstage hdone hasked
  | answered t call hbusy hout hstage hdone hasked hanswer =>
    exact .answered t call hbusy hout hstage hdone hasked (hsub hanswer)

/-- `proc_waiter_acquire`. -/
theorem WaiterInv.acquire (h : WaiterInv false waiter stage asked answers) :
    WaiterInv true waiter (Function.update stage t .taken) asked answers := by
  cases h with
  | free _ hout hasked =>
    refine .held t rfl (fun t' ht => ?_) (.inl (Function.update_self _ _ _)) hasked
    rw [Function.update_of_ne ht]
    exact hout t'
  | held _ hbusy | sent _ _ hbusy | answered _ _ hbusy => cases hbusy

/-- The thread that has the waiter, before it waits. -/
theorem WaiterInv.of_taken (h : WaiterInv busy waiter stage asked answers)
    (ht : stage t = .taken ∨ stage t = .ready) :
    busy = true ∧ asked = [] ∧ (stage t = .ready → waiter.done = false) := by
  have hne : stage t ≠ .out := by
    rcases ht with ht | ht <;> rw [ht] <;> nofun
  have hnot : ∀ call, stage t ≠ .waiting call := by
    rcases ht with ht | ht <;> rw [ht] <;> nofun
  cases h with
  | free _ hout _ => exact absurd (hout t) hne
  | held u hbusy hout hstage hasked =>
    obtain rfl := eq_of_stage hout hne
    refine ⟨hbusy, hasked, fun hready => ?_⟩
    rcases hstage with hstage | ⟨-, hdone⟩
    · rw [hready] at hstage
      cases hstage
    · exact hdone
  | sent u call _ hout hstage _ _ | answered u call _ hout hstage _ _ _ =>
    obtain rfl := eq_of_stage hout hne
    exact absurd hstage (hnot call)

/-- The thread that waits. -/
theorem WaiterInv.of_waiting {call : κ} (h : WaiterInv busy waiter stage asked answers)
    (ht : stage t = .waiting call) :
    busy = true ∧ (waiter.done = true → asked = [] ∧ (call, waiter.status) ∈ answers) := by
  have hne : stage t ≠ .out := by
    rw [ht]
    nofun
  cases h with
  | free _ hout _ => exact absurd (hout t) hne
  | held u _ hout hstage _ =>
    obtain rfl := eq_of_stage hout hne
    rcases hstage with hstage | ⟨hstage, -⟩
    all_goals
      rw [ht] at hstage
      cases hstage
  | sent u _ hbusy _ _ hdone _ =>
    refine ⟨hbusy, fun hd => ?_⟩
    rw [hdone] at hd
    cases hd
  | answered u call' hbusy hout hstage _ hasked hanswer =>
    obtain rfl := eq_of_stage hout hne
    obtain rfl : call = call' := by
      rw [ht] at hstage
      exact Stage.waiting.inj hstage
    exact ⟨hbusy, fun _ => ⟨hasked, hanswer⟩⟩

/-- `rtp_sync_waiter_complete` for the command that has the waiter. -/
theorem WaiterInv.complete {call : κ} (h : WaiterInv busy waiter stage (call :: asked) answers)
    (status : ℕ) :
    WaiterInv busy (waiterComplete status) stage asked (answers ++ [(call, status)]) := by
  cases h with
  | free _ _ hasked => cases hasked
  | held _ _ _ _ hasked => cases hasked
  | answered _ _ _ _ _ _ hasked _ => cases hasked
  | sent t call' hbusy hout hstage _ hasked =>
    obtain ⟨rfl, rfl⟩ := List.cons.inj hasked
    exact .answered t call hbusy hout hstage rfl rfl (List.mem_append_right _ List.mem_cons_self)

/-- A thread that has the waiter, with no command on its way. -/
theorem WaiterInv.keep (h : WaiterInv busy waiter stage asked answers) (ht : stage t ≠ .out)
    (hbusy : busy = true) (hasked : asked = []) {waiter' : Waiter} {new : Stage κ}
    (hnew : new = .taken ∨ new = .ready ∧ waiter'.done = false) :
    WaiterInv busy waiter' (Function.update stage t new) asked answers := by
  refine .held t hbusy (fun t' ht' => ?_) ?_ hasked
  · rw [Function.update_of_ne ht']
    exact h.out_of_ne ht t' ht'
  · rw [Function.update_self]
    exact hnew

/-- The command of the thread is accepted. -/
theorem WaiterInv.send (h : WaiterInv busy waiter stage asked answers) (ht : stage t = .ready)
    (call : κ) :
    WaiterInv busy waiter (Function.update stage t (.waiting call)) (asked ++ [call]) answers := by
  obtain ⟨hbusy, rfl, hdone⟩ := h.of_taken (.inr ht)
  refine .sent t call hbusy (fun t' ht' => ?_) (Function.update_self _ _ _) (hdone ht) rfl
  rw [Function.update_of_ne ht']
  refine h.out_of_ne (fun hout => ?_) t' ht'
  rw [ht] at hout
  cases hout

/-- `proc_waiter_release`. -/
theorem WaiterInv.release (h : WaiterInv busy waiter stage asked answers) (ht : stage t = .taken) :
    WaiterInv false waiter (Function.update stage t .out) asked answers := by
  refine .free rfl (fun t' => ?_) (h.of_taken (.inl ht)).2.1
  by_cases ht' : t' = t
  · rw [ht', Function.update_self]
  · rw [Function.update_of_ne ht']
    refine h.out_of_ne (fun hout => ?_) t' ht'
    rw [ht] at hout
    cases hout

/-- Some thread waits for a completion to come. -/
theorem WaiterInv.of_mem {n : κ} (h : WaiterInv busy waiter stage asked answers) (hn : n ∈ asked) :
    ∃ t, stage t = .waiting n ∧ waiter.done = false ∧ asked = [n] := by
  cases h with
  | free _ _ hasked | held _ _ _ _ hasked | answered _ _ _ _ _ _ hasked _ =>
    rw [hasked] at hn
    cases hn
  | sent t call _ _ hstage hdone hasked =>
    rw [hasked, List.mem_singleton] at hn
    exact ⟨t, hn ▸ hstage, hdone, hn ▸ hasked⟩

/-- With a free waiter all threads are out. -/
theorem WaiterInv.stage_out (h : WaiterInv false waiter stage asked answers) (t : ℕ) :
    stage t = .out := by
  cases h with
  | free _ hout _ => exact hout t
  | held _ hbusy | sent _ _ hbusy | answered _ _ hbusy => cases hbusy

end waiter

/-! ### The queue -/

/-- A record: the link and the rest. -/
structure Cell (α : Type*) where
  val : α
  next : Option ℕ
  deriving DecidableEq, Repr

/-- `rtp_sync_cmdq`, with the pointers it leads to. -/
structure Cmdq where
  head : Option ℕ
  tail : Option ℕ
  deriving DecidableEq, Repr

variable {α : Type*}

/-- Write the link of a record. -/
def setNext (heap : ℕ → Option (Cell α)) (cmd : ℕ) (next : Option ℕ) :
    Option (ℕ → Option (Cell α)) :=
  (heap cmd).map fun c => Function.update heap cmd (some { c with next := next })

/-- `rtp_sync_cmdq_push`. -/
def cmdqPush (cmdq : Cmdq) (heap : ℕ → Option (Cell α)) (cmd : ℕ) :
    Option (Cmdq × (ℕ → Option (Cell α))) :=
  (setNext heap cmd none).bind fun heap =>
    match cmdq.tail with
    | some tail => (setNext heap tail (some cmd)).map fun heap => (⟨cmdq.head, some cmd⟩, heap)
    | none => some (⟨some cmd, some cmd⟩, heap)

/-- `rtp_sync_cmdq_detach_all`. -/
def cmdqDetachAll (cmdq : Cmdq) : Cmdq × Option ℕ := (⟨none, none⟩, cmdq.head)

/-! ### The records behind a pointer -/

/-- The links on the heap, from a pointer on. -/
def links (heap : ℕ → Option (Cell α)) (p : Option ℕ) : Links ℕ :=
  ⟨p, fun a => (heap a).bind Cell.next⟩

/-- From `p` one comes to the records at the addresses of `cmds`, which hold what is
said there. -/
structure Listed (heap : ℕ → Option (Cell α)) (p : Option ℕ) (cmds : List (ℕ × α)) : Prop where
  lists : ListsFrom (links heap p) none (cmds.map Prod.fst)
  vals : ∀ cmd ∈ cmds, (heap cmd.1).map Cell.val = some cmd.2

variable {heap heap' : ℕ → Option (Cell α)} {p : Option ℕ} {cmds : List (ℕ × α)}

theorem listed_nil : Listed heap none [] := ⟨rfl, nofun⟩

theorem Listed.eq_nil (h : Listed heap none cmds) : cmds = [] :=
  List.map_eq_nil_iff.mp (h.lists.unique (show ListsFrom _ none [] from rfl))

theorem Listed.nodup (h : Listed heap p cmds) : (cmds.map Prod.fst).Nodup := h.lists.nodup

/-- The first record can be read, and its link leads to the others. -/
theorem Listed.head {a : ℕ} (h : Listed heap (some a) cmds) :
    ∃ val next cmds', cmds = (a, val) :: cmds' ∧ heap a = some ⟨val, next⟩ ∧
      Listed heap next cmds' := by
  cases cmds with
  | nil => cases h.lists.get_eq
  | cons cmd cmds =>
    obtain ⟨b, val⟩ := cmd
    obtain rfl : a = b := Option.some.inj h.lists.1
    obtain ⟨⟨val', next⟩, hcell, rfl⟩ := Option.map_eq_some_iff.mp (h.vals (a, val) List.mem_cons_self)
    refine ⟨_, next, cmds, rfl, hcell, ?_, fun cmd hcmd => h.vals cmd (List.mem_cons_of_mem _ hcmd)⟩
    refine h.lists.2.congr ?_ fun _ _ => rfl
    show next = (heap a).bind Cell.next
    rw [hcell]
    rfl

/-- What is listed depends on the records listed only. -/
theorem Listed.frame (h : Listed heap p cmds) (heq : ∀ a ∈ cmds.map Prod.fst, heap' a = heap a) :
    Listed heap' p cmds := by
  constructor
  · refine h.lists.congr rfl fun a ha => ?_
    show (heap' a).bind _ = _
    rw [heq a ha]
    rfl
  · intro cmd hcmd
    rw [heq _ (List.mem_map_of_mem hcmd)]
    exact h.vals cmd hcmd

theorem setNext_eq {a : ℕ} {cell : Cell α} (h : heap a = some cell) (next : Option ℕ) :
    setNext heap a next = some (Function.update heap a (some { cell with next := next })) := by
  rw [setNext, h]
  rfl

/-- What `setNext` does to the links. -/
theorem links_update (a : ℕ) (val : α) (next : Option ℕ) :
    links (Function.update heap a (some ⟨val, next⟩)) p = (links heap p).set (some a) next := by
  refine congrArg (Links.mk p) (funext fun b => ?_)
  by_cases hb : b = a
  · subst hb
    rw [Function.update_self, Function.update_self]
    rfl
  · rw [Function.update_of_ne hb, Function.update_of_ne hb]
    rfl

/-- Writing links leaves the rest of the records as it is. -/
theorem map_val_update {a : ℕ} {cell : Cell α} (h : heap a = some cell) (next : Option ℕ) (b : ℕ) :
    (Function.update heap a (some { cell with next := next }) b).map Cell.val =
      (heap b).map Cell.val := by
  by_cases hb : b = a
  · subst hb
    rw [Function.update_self, h]
    rfl
  · rw [Function.update_of_ne hb]

/-- **`rtp_sync_cmdq_push`** puts a record of its own behind those of the queue. -/
theorem cmdqPush_spec {cmdq : Cmdq} {a : ℕ} {cell : Cell α} (h : Listed heap cmdq.head cmds)
    (htail : cmdq.tail = (cmds.map Prod.fst).getLast?) (ha : heap a = some cell)
    (hnew : a ∉ cmds.map Prod.fst) :
    ∃ cmdq' heap', cmdqPush cmdq heap a = some (cmdq', heap') ∧
      Listed heap' cmdq'.head (cmds ++ [(a, cell.val)]) ∧
      cmdq'.tail = ((cmds ++ [(a, cell.val)]).map Prod.fst).getLast? ∧
      ∀ b, b ≠ a → b ∉ cmds.map Prod.fst → heap' b = heap b := by
  have hlast : ((cmds ++ [(a, cell.val)]).map Prod.fst).getLast? = some a := by
    rw [List.map_append]
    exact List.getLast?_concat
  have hvals : ∀ cmd ∈ cmds ++ [(a, cell.val)], (heap cmd.1).map Cell.val = some cmd.2 := by
    intro cmd hcmd
    rcases List.mem_append.mp hcmd with hcmd | hcmd
    · exact h.vals cmd hcmd
    · rw [List.mem_singleton.mp hcmd, ha]
      rfl
  -- the library's insertion, at the link behind the last record
  have hlists : ListsFrom (links heap cmdq.head) none (cmds.map Prod.fst ++ []) := by
    rw [List.append_nil]
    exact h.lists
  have hend : (links heap cmdq.head).get (after none (cmds.map Prod.fst)) = none :=
    listsFrom_append hlists
  have hins := hlists.insert (by rw [List.append_nil]; exact hnew) nofun
  rw [hend, after_none] at hins
  rw [hlast, cmdqPush, setNext_eq ha, Option.bind_some, htail]
  cases hb : (cmds.map Prod.fst).getLast? with
  | none =>
    refine ⟨_, _, rfl, ⟨?_, fun cmd hcmd => ?_⟩, rfl, fun b hne _ => Function.update_of_ne hne _ _⟩
    · rw [hb] at hins
      rw [List.map_append, links_update]
      exact hins
    · rw [map_val_update ha]
      exact hvals cmd hcmd
  | some b =>
    have hmem : b ∈ cmds.map Prod.fst := List.mem_of_getLast? hb
    have hba : b ≠ a := fun heq => hnew (heq ▸ hmem)
    obtain ⟨cmd, hcmd, rfl⟩ := List.mem_map.mp hmem
    obtain ⟨last, hcell, -⟩ := Option.map_eq_some_iff.mp (h.vals cmd hcmd)
    have hcell' : Function.update heap a (some { cell with next := none }) cmd.1 = some last := by
      rw [Function.update_of_ne hba, hcell]
    dsimp only
    rw [setNext_eq hcell', Option.map_some]
    refine ⟨_, _, rfl, ⟨?_, fun c hc => ?_⟩, rfl, fun c hne hout => ?_⟩
    · rw [hb] at hins
      rw [List.map_append, links_update, links_update]
      exact hins
    · rw [map_val_update hcell', map_val_update ha]
      exact hvals c hc
    · have hcb : c ≠ cmd.1 := fun heq => hout (heq ▸ hmem)
      rw [Function.update_of_ne hcb, Function.update_of_ne hne]

end RtpSync
