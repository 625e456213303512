/-
Monitors: data under a lock, with a condition variable.

The threads run sections.  In a section a thread takes the lock; it waits on the condition
variable until the data is as it should be, if it has to; it makes its writes, one after the
other, and sends a signal where it has one to send; and it lets the lock go.  To wait is to
let the lock go and to fall asleep in one step.  A signal wakes one of those who sleep, if
there is one; a thread may also wake up for no reason, and by its deadline.  In any case it
takes the lock again, and looks at the data again unless the deadline has come.  A signal
can be sent from outside of the sections too.

* `monitorStep` — one step of a thread;
* `atomicStep` — a section as one step;
* `run_atomic` — a run of the threads is a run of `atomicStep`;
* `no_lost_wakeup` — a thread that sleeps has nothing to wake up for;
* `owner_goes`, `lock_isSome` — who has the lock can go on, and who wants it gets it when it
  is free;
* `wait_leaves` — a wait with nothing to wait for ends.
-/
import LibRtpSynth.Runs
import Mathlib.Logic.Function.Basic

open Runs

namespace Monitor

/-! ### Sections -/

/-- An instruction of a section behind its wait. -/
inductive Instr (δ : Type)
  | write (f : δ → δ)
  | signal

def Instr.apply {δ : Type} (d : δ) : Instr δ → δ
  | .write f => f d
  | .signal => d

/-- Instructions one after the other. -/
def effect {δ : Type} (instrs : List (Instr δ)) (d : δ) : δ := instrs.foldl Instr.apply d

/-- A section.  It waits until `cond` holds, if it has one; the wait may have a deadline. -/
structure Section (δ : Type) where
  cond : Option (δ → Bool)
  timed : Bool
  body : δ → List (Instr δ)

/-- There is no need to wait. -/
def Section.ready {δ : Type} (sec : Section δ) (d : δ) : Bool := sec.cond.all fun cond => cond d

/-- The section may wait. -/
def Section.waits {δ : Type} (sec : Section δ) : Bool := sec.cond.isSome

theorem waits_of_not_ready {δ : Type} {sec : Section δ} {d : δ} (h : sec.ready d = false) :
    sec.waits = true := by
  rw [Section.ready] at h
  rw [Section.waits]
  cases hcond : sec.cond with
  | none =>
    rw [hcond] at h
    cases h
  | some cond => rfl

variable {ι κ δ : Type} [DecidableEq ι]

/-- A section as one step, which shows the data that it found. -/
def atomicStep (prog : κ → Section δ) (d : δ) (k : κ) : Option (δ × δ) :=
  if (prog k).ready d then some (effect ((prog k).body d) d, d) else none

/-! ### Threads -/

/-- Where a thread is. -/
inductive Phase (κ δ : Type)
  | out
  /-- Before the lock. -/
  | entering (k : κ)
  /-- With the lock, before it looks at the data. -/
  | checking (k : κ)
  | asleep (k : κ)
  /-- Before the lock, in the wait. -/
  | woken (k : κ) (timedOut : Bool)
  /-- With the lock, behind the wait. -/
  | running (k : κ) (rest : List (Instr δ))

/-- The section. -/
def Phase.op : Phase κ δ → Option κ
  | .out => none
  | .entering k | .checking k | .asleep k | .woken k _ | .running k _ => some k

/-- The thread has the lock. -/
def Phase.holds : Phase κ δ → Bool
  | .checking _ | .running _ _ => true
  | .out | .entering _ | .asleep _ | .woken _ _ => false

/-- What the thread still has to do with the lock. -/
def Phase.rest : Phase κ δ → List (Instr δ)
  | .running _ rest => rest
  | _ => []

/-- The threads, the lock and the data. -/
structure Sys (ι κ δ : Type) where
  owner : Option ι
  sleepers : List ι
  phase : ι → Phase κ δ
  data : δ

/-- Nobody is in a section. -/
def start (d : δ) : Sys ι κ δ := ⟨none, [], fun _ => .out, d⟩

def Sys.goto (s : Sys ι κ δ) (t : ι) (p : Phase κ δ) : Sys ι κ δ :=
  { s with phase := Function.update s.phase t p }

/-- The thread sleeps no more. -/
def Sys.rouse (s : Sys ι κ δ) (t : ι) (p : Phase κ δ) : Sys ι κ δ :=
  { s.goto t p with sleepers := s.sleepers.filter fun t' => t' ≠ t }

/-- A signal wakes the thread `who`, or nobody when nobody sleeps. -/
def Sys.signal (s : Sys ι κ δ) : Option ι → Option (Sys ι κ δ)
  | none => if s.sleepers.isEmpty then some s else none
  | some t =>
    match s.phase t with
    | .asleep k => some (s.rouse t (.woken k false))
    | _ => none

/-- The steps of the threads. -/
inductive Act (ι κ : Type)
  /-- The thread comes to a section. -/
  | call (t : ι) (k : κ)
  | lock (t : ι)
  | check (t : ι)
  /-- The next instruction; if it is a signal it goes to this thread. -/
  | exec (t : ι) (who : Option ι)
  | unlock (t : ι)
  /-- The thread wakes up for no reason. -/
  | wake (t : ι)
  | timeout (t : ι)
  /-- A signal from outside. -/
  | signal (who : Option ι)
  deriving DecidableEq, Repr

/-- What a step shows. -/
inductive Seen (ι κ δ : Type)
  | quiet
  /-- The thread finds the data as it should be. -/
  | entered (t : ι) (k : κ) (d : δ)
  /-- The thread ends its wait by the deadline. -/
  | timedOut (t : ι) (k : κ)
  deriving DecidableEq, Repr

variable (prog : κ → Section δ)

/-- One step. -/
def monitorStep (s : Sys ι κ δ) : Act ι κ → Option (Sys ι κ δ × Seen ι κ δ)
  | .call t k =>
    match s.phase t with
    | .out => some (s.goto t (.entering k), .quiet)
    | _ => none
  | .lock t =>
    if s.owner.isNone then
      match s.phase t with
      | .entering k | .woken k false => some ({ s.goto t (.checking k) with owner := some t }, .quiet)
      | .woken k true => some ({ s.goto t (.running k []) with owner := some t }, .timedOut t k)
      | _ => none
    else none
  | .check t =>
    match s.phase t with
    | .checking k =>
      if (prog k).ready s.data then
        some (s.goto t (.running k ((prog k).body s.data)), .entered t k s.data)
      else some ({ s.goto t (.asleep k) with owner := none, sleepers := t :: s.sleepers }, .quiet)
    | _ => none
  | .exec t who =>
    match s.phase t with
    | .running k (.write f :: rest) => some ({ s.goto t (.running k rest) with data := f s.data }, .quiet)
    | .running k (.signal :: rest) => ((s.goto t (.running k rest)).signal who).map fun s => (s, .quiet)
    | _ => none
  | .unlock t =>
    match s.phase t with
    | .running _ [] => some ({ s.goto t .out with owner := none }, .quiet)
    | _ => none
  | .wake t =>
    match s.phase t with
    | .asleep k => some (s.rouse t (.woken k false), .quiet)
    | _ => none
  | .timeout t =>
    match s.phase t with
    | .asleep k => if (prog k).timed then some (s.rouse t (.woken k true), .quiet) else none
    | _ => none
  | .signal who => (s.signal who).map fun s => (s, .quiet)

/-- The steps, with what each of them finds. -/
inductive Move (s : Sys ι κ δ) : Act ι κ → Sys ι κ δ → Seen ι κ δ → Prop
  | called (t : ι) (k : κ) (hphase : s.phase t = .out) :
      Move s (.call t k) (s.goto t (.entering k)) .quiet
  | locked (t : ι) (k : κ) (hfree : s.owner = none)
      (hphase : s.phase t = .entering k ∨ s.phase t = .woken k false) :
      Move s (.lock t) { s.goto t (.checking k) with owner := some t } .quiet
  | late (t : ι) (k : κ) (hfree : s.owner = none) (hphase : s.phase t = .woken k true) :
      Move s (.lock t) { s.goto t (.running k []) with owner := some t } (.timedOut t k)
  | entered (t : ι) (k : κ) (hphase : s.phase t = .checking k) (hready : (prog k).ready s.data = true) :
      Move s (.check t) (s.goto t (.running k ((prog k).body s.data))) (.entered t k s.data)
  | slept (t : ι) (k : κ) (hphase : s.phase t = .checking k) (hready : (prog k).ready s.data = false) :
      Move s (.check t) { s.goto t (.asleep k) with owner := none, sleepers := t :: s.sleepers } .quiet
  | wrote (t : ι) (who : Option ι) (k : κ) (f : δ → δ) (rest : List (Instr δ))
      (hphase : s.phase t = .running k (.write f :: rest)) :
      Move s (.exec t who) { s.goto t (.running k rest) with data := f s.data } .quiet
  | signalled (t : ι) (who : Option ι) (k : κ) (rest : List (Instr δ)) (s' : Sys ι κ δ)
      (hphase : s.phase t = .running k (.signal :: rest))
      (hsignal : (s.goto t (.running k rest)).signal who = some s') : Move s (.exec t who) s' .quiet
  | unlocked (t : ι) (k : κ) (hphase : s.phase t = .running k []) :
      Move s (.unlock t) { s.goto t .out with owner := none } .quiet
  | woke (act : Act ι κ) (t : ι) (k : κ) (timedOut : Bool) (hphase : s.phase t = .asleep k)
      (hact : ∀ t k, act ≠ .call t k) : Move s act (s.rouse t (.woken k timedOut)) .quiet
  | outside (who : Option ι) (s' : Sys ι κ δ) (hsignal : s.signal who = some s') :
      Move s (.signal who) s' .quiet

variable {prog} {s s' : Sys ι κ δ} {act : Act ι κ} {r : Seen ι κ δ} {d₀ : δ} {t : ι} {k : κ}

theorem monitorStep_move (h : monitorStep prog s act = some (s', r)) : Move prog s act s' r := by
  cases act with
  | call t k =>
    rw [monitorStep] at h
    split at h
    · next hphase =>
      obtain ⟨rfl, rfl⟩ := Prod.mk.inj (Option.some.inj h)
      exact .called t k hphase
    · cases h
  | lock t =>
    rw [monitorStep] at h
    split at h
    · next hfree =>
      rw [Option.isNone_iff_eq_none] at hfree
      split at h
      · next k hphase =>
        obtain ⟨rfl, rfl⟩ := Prod.mk.inj (Option.some.inj h)
        exact .locked t k hfree (.inl hphase)
      · next k hphase =>
        obtain ⟨rfl, rfl⟩ := Prod.mk.inj (Option.some.inj h)
        exact .locked t k hfree (.inr hphase)
      · next k hphase =>
        obtain ⟨rfl, rfl⟩ := Prod.mk.inj (Option.some.inj h)
        exact .late t k hfree hphase
      · cases h
    · cases h
  | check t =>
    rw [monitorStep] at h
    split at h
    · next k hphase =>
      split at h
      · next hready =>
        obtain ⟨rfl, rfl⟩ := Prod.mk.inj (Option.some.inj h)
        exact .entered t k hphase hready
      · next hready =>
        obtain ⟨rfl, rfl⟩ := Prod.mk.inj (Option.some.inj h)
        exact .slept t k hphase ((Bool.not_eq_true _).mp hready)
    · cases h
  | exec t who =>
    rw [monitorStep] at h
    split at h
    · next k f rest hphase =>
      obtain ⟨rfl, rfl⟩ := Prod.mk.inj (Option.some.inj h)
      exact .wrote t who k f rest hphase
    · next k rest hphase =>
      obtain ⟨u, hu, heq⟩ := Option.map_eq_some_iff.mp h
      obtain ⟨rfl, rfl⟩ := Prod.mk.inj heq
      exact .signalled t who k rest u hphase hu
    · cases h
  | unlock t =>
    rw [monitorStep] at h
    split at h
    · next k hphase =>
      obtain ⟨rfl, rfl⟩ := Prod.mk.inj (Option.some.inj h)
      exact .unlocked t k hphase
    · cases h
  | wake t =>
    rw [monitorStep] at h
    split at h
    · next k hphase =>
      obtain ⟨rfl, rfl⟩ := Prod.mk.inj (Option.some.inj h)
      exact .woke (.wake t) t k false hphase (by simp)
    · cases h
  | timeout t =>
    rw [monitorStep] at h
    split at h
    · next k hphase =>
      split_ifs at h
      obtain ⟨rfl, rfl⟩ := Prod.mk.inj (Option.some.inj h)
      exact .woke (.timeout t) t k true hphase (by simp)
    · cases h
  | signal who =>
    obtain ⟨u, hu, heq⟩ := Option.map_eq_some_iff.mp h
    obtain ⟨rfl, rfl⟩ := Prod.mk.inj heq
    exact .outside who u hu

/-- What a signal does. -/
theorem signal_cases {who : Option ι} (h : s.signal who = some s') :
    s.sleepers = [] ∧ s' = s ∨ ∃ t k, s.phase t = .asleep k ∧ s' = s.rouse t (.woken k false) := by
  cases who with
  | none =>
    rw [Sys.signal] at h
    split_ifs at h with hempty
    exact .inl ⟨List.isEmpty_iff.mp hempty, (Option.some.inj h).symm⟩
  | some t =>
    rw [Sys.signal] at h
    split at h
    · next k hphase => exact .inr ⟨t, k, hphase, (Option.some.inj h).symm⟩
    · cases h

/-! ### The lock -/

/-- Where the lock is, and who sleeps. -/
structure LockInv (s : Sys ι κ δ) : Prop where
  owner : ∀ t, s.owner = some t ↔ (s.phase t).holds = true
  sleepers : ∀ t, t ∈ s.sleepers ↔ ∃ k, s.phase t = .asleep k

omit [DecidableEq ι] in
theorem lockInv_start (d : δ) : LockInv (start d : Sys ι κ δ) where
  owner _ := iff_of_false nofun nofun
  sleepers _ := iff_of_false List.not_mem_nil (by simp [start])

@[simp] theorem goto_self (s : Sys ι κ δ) (t : ι) (p : Phase κ δ) : (s.goto t p).phase t = p :=
  Function.update_self _ _ _

theorem goto_ne {t' : ι} (hne : t' ≠ t) (s : Sys ι κ δ) (p : Phase κ δ) :
    (s.goto t p).phase t' = s.phase t' := Function.update_of_ne hne _ _

/-- A thread that does not sleep goes on, and does not fall asleep. -/
theorem LockInv.sleepers_goto (h : LockInv s) {p : Phase κ δ} (hbefore : ∀ k, s.phase t ≠ .asleep k)
    (hafter : ∀ k, p ≠ .asleep k) (t' : ι) :
    t' ∈ s.sleepers ↔ ∃ k, (s.goto t p).phase t' = .asleep k := by
  rw [h.sleepers]
  by_cases hne : t' = t
  · subst hne
    rw [goto_self]
    exact iff_of_false (fun ⟨k, hk⟩ => hbefore k hk) fun ⟨k, hk⟩ => hafter k hk
  · rw [goto_ne hne]

/-- A thread goes on, and the lock stays where it is. -/
theorem LockInv.owner_goto (h : LockInv s) {p : Phase κ δ} (hholds : p.holds = (s.phase t).holds)
    (t' : ι) : s.owner = some t' ↔ ((s.goto t p).phase t').holds = true := by
  by_cases hne : t' = t
  · subst hne
    rw [goto_self, hholds]
    exact h.owner t'
  · rw [goto_ne hne]
    exact h.owner t'

theorem LockInv.goto (h : LockInv s) {p : Phase κ δ} (hholds : p.holds = (s.phase t).holds)
    (hbefore : ∀ k, s.phase t ≠ .asleep k) (hafter : ∀ k, p ≠ .asleep k) (d : δ) :
    LockInv { s.goto t p with data := d } :=
  ⟨h.owner_goto hholds, h.sleepers_goto hbefore hafter⟩

/-- A thread takes the lock. -/
theorem LockInv.take (h : LockInv s) {p : Phase κ δ} (hfree : s.owner = none) (hholds : p.holds = true)
    (hbefore : ∀ k, s.phase t ≠ .asleep k) (hafter : ∀ k, p ≠ .asleep k) :
    LockInv { s.goto t p with owner := some t } where
  owner t' := by
    show some t = some t' ↔ ((s.goto t p).phase t').holds = true
    by_cases hne : t' = t
    · subst hne
      rw [goto_self]
      exact iff_of_true rfl hholds
    · have hnot := (h.owner t').not.mp (by rw [hfree]; nofun)
      rw [goto_ne hne]
      exact iff_of_false (fun heq => hne (Option.some.inj heq).symm) hnot
  sleepers := h.sleepers_goto hbefore hafter

/-- A thread lets the lock go. -/
theorem LockInv.owner_drop (h : LockInv s) {p : Phase κ δ} (hholds : (s.phase t).holds = true)
    (hnot : p.holds = false) (t' : ι) : none = some t' ↔ ((s.goto t p).phase t').holds = true := by
  refine iff_of_false nofun ?_
  by_cases hne : t' = t
  · subst hne
    rw [goto_self, hnot]
    nofun
  · rw [goto_ne hne]
    intro hholds'
    have howner := (h.owner t).mpr hholds
    rw [(h.owner t').mpr hholds'] at howner
    exact hne (Option.some.inj howner)

/-- A thread falls asleep. -/
theorem LockInv.sleep (h : LockInv s) (hphase : s.phase t = .checking k) :
    LockInv { s.goto t (.asleep k) with owner := none, sleepers := t :: s.sleepers } where
  owner := h.owner_drop (by rw [hphase]; rfl) rfl
  sleepers t' := by
    show t' ∈ t :: s.sleepers ↔ ∃ k', (s.goto t (.asleep k)).phase t' = .asleep k'
    by_cases hne : t' = t
    · subst hne
      rw [goto_self]
      exact iff_of_true List.mem_cons_self ⟨k, rfl⟩
    · rw [goto_ne hne, ← h.sleepers, List.mem_cons]
      exact or_iff_right hne

/-- A thread wakes up. -/
theorem LockInv.rouse (h : LockInv s) {timedOut : Bool} (hphase : s.phase t = .asleep k) :
    LockInv (s.rouse t (.woken k timedOut)) where
  owner := h.owner_goto (by rw [hphase]; rfl)
  sleepers t' := by
    show t' ∈ s.sleepers.filter (fun t' => t' ≠ t) ↔
      ∃ k', (s.goto t (.woken k timedOut)).phase t' = .asleep k'
    rw [List.mem_filter, h.sleepers]
    by_cases hne : t' = t
    · subst hne
      simp
    · simp [goto_ne hne, hne]

theorem LockInv.signal {who : Option ι} (h : LockInv s) (hsignal : s.signal who = some s') :
    LockInv s' := by
  rcases signal_cases hsignal with ⟨-, rfl⟩ | ⟨t, k, hphase, rfl⟩
  · exact h
  · exact h.rouse hphase

/-- **One step.** -/
theorem LockInv.step (h : LockInv s) (hmove : Move prog s act s' r) : LockInv s' := by
  cases hmove with
  | called t k hphase => exact h.goto (by rw [hphase]; rfl) (by simp [hphase]) (by simp) s.data
  | locked t k hfree hphase =>
    have hawake : ∀ k, s.phase t ≠ .asleep k := by
      rcases hphase with hphase | hphase <;> simp [hphase]
    exact h.take hfree rfl hawake (by simp)
  | late t k hfree hphase => exact h.take hfree rfl (by simp [hphase]) (by simp)
  | entered t k hphase _ => exact h.goto (by rw [hphase]; rfl) (by simp [hphase]) (by simp) s.data
  | slept t k hphase _ => exact h.sleep hphase
  | wrote t who k f rest hphase =>
    exact h.goto (by rw [hphase]; rfl) (by simp [hphase]) (by simp) (f s.data)
  | signalled t who k rest s' hphase hsignal =>
    exact LockInv.signal (h.goto (by rw [hphase]; rfl) (by simp [hphase]) (by simp) s.data) hsignal
  | unlocked t k hphase =>
    exact ⟨h.owner_drop (by rw [hphase]; rfl) rfl, h.sleepers_goto (by simp [hphase]) (by simp)⟩
  | woke act t k timedOut hphase _ => exact h.rouse hphase
  | outside who s' hsignal => exact h.signal hsignal

/-! ### Sections as one step -/

/-- The data as they will be when the lock is free again. -/
def Sys.settled (s : Sys ι κ δ) : δ :=
  match s.owner with
  | none => s.data
  | some t => effect (s.phase t).rest s.data

omit [DecidableEq ι] in
theorem settled_none (h : s.owner = none) : s.settled = s.data := by
  rw [Sys.settled, h]

omit [DecidableEq ι] in
theorem settled_some (h : s.owner = some t) : s.settled = effect (s.phase t).rest s.data := by
  rw [Sys.settled, h]

omit [DecidableEq ι] in
theorem settled_congr (howner : s'.owner = s.owner) (hdata : s'.data = s.data)
    (hrest : ∀ t, s.owner = some t → (s'.phase t).rest = (s.phase t).rest) : s'.settled = s.settled := by
  rw [Sys.settled, Sys.settled, howner, hdata]
  split
  · rfl
  · next t ht => rw [hrest t ht]

/-- A thread without the lock goes on. -/
theorem LockInv.settled_goto (h : LockInv s) (p : Phase κ δ) (hnot : (s.phase t).holds = false) :
    (s.goto t p).settled = s.settled := by
  refine settled_congr rfl rfl fun t' howner => ?_
  have hne : t' ≠ t := by
    rintro rfl
    cases hnot.symm.trans ((h.owner t').mp howner)
  rw [goto_ne hne]

theorem LockInv.settled_rouse (h : LockInv s) {timedOut : Bool} (hphase : s.phase t = .asleep k) :
    (s.rouse t (.woken k timedOut)).settled = s.settled :=
  h.settled_goto (.woken k timedOut) (by rw [hphase]; rfl)

theorem LockInv.settled_signal {who : Option ι} (h : LockInv s) (hsignal : s.signal who = some s') :
    s'.settled = s.settled := by
  rcases signal_cases hsignal with ⟨-, rfl⟩ | ⟨t, k, hphase, rfl⟩
  · rfl
  · exact h.settled_rouse hphase

/-- The section that a step enters, with the data found. -/
def Seen.entry : Seen ι κ δ → Option (κ × δ)
  | .entered _ k d => some (k, d)
  | _ => none

/-- **One step**: the data change by a whole section when it is entered, and never else. -/
theorem LockInv.settled_step (h : LockInv s) (hmove : Move prog s act s' r) :
    (∃ t k, r = .entered t k s.settled ∧ (prog k).ready s.settled = true ∧
      s'.settled = effect ((prog k).body s.settled) s.settled) ∨
    r.entry = none ∧ s'.settled = s.settled := by
  have howner : ∀ t, (s.phase t).holds = true → s.settled = effect (s.phase t).rest s.data :=
    fun t hholds => settled_some ((h.owner t).mpr hholds)
  cases hmove with
  | called t k hphase => exact .inr ⟨rfl, h.settled_goto _ (by rw [hphase]; rfl)⟩
  | locked t k hfree _ =>
    refine .inr ⟨rfl, ?_⟩
    rw [settled_none hfree, settled_some (t := t) rfl]
    show effect ((s.goto t (.checking k)).phase t).rest s.data = s.data
    rw [goto_self]
    rfl
  | late t k hfree _ =>
    refine .inr ⟨rfl, ?_⟩
    rw [settled_none hfree, settled_some (t := t) rfl]
    show effect ((s.goto t (.running k [])).phase t).rest s.data = s.data
    rw [goto_self]
    rfl
  | entered t k hphase hready =>
    have hnow : s.settled = s.data := by
      rw [howner t (by rw [hphase]; rfl), hphase]
      rfl
    have hafter : (s.goto t (.running k ((prog k).body s.data))).owner = some t :=
      (h.owner t).mpr (by rw [hphase]; rfl)
    rw [hnow]
    refine .inl ⟨t, k, rfl, hready, ?_⟩
    rw [settled_some hafter, goto_self]
    rfl
  | slept t k hphase _ =>
    refine .inr ⟨rfl, ?_⟩
    rw [howner t (by rw [hphase]; rfl), hphase]
    rfl
  | wrote t who k f rest hphase =>
    refine .inr ⟨rfl, ?_⟩
    have hafter : s.owner = some t := (h.owner t).mpr (by rw [hphase]; rfl)
    rw [settled_some (s := { s.goto t (.running k rest) with data := f s.data }) hafter,
      howner t (by rw [hphase]; rfl), hphase]
    show effect ((s.goto t (.running k rest)).phase t).rest (f s.data) = _
    rw [goto_self]
    rfl
  | signalled t who k rest s' hphase hsignal =>
    refine .inr ⟨rfl, ?_⟩
    have hafter : s.owner = some t := (h.owner t).mpr (by rw [hphase]; rfl)
    have hgoto : LockInv (s.goto t (.running k rest)) :=
      h.goto (by rw [hphase]; rfl) (by simp [hphase]) (by simp) s.data
    rw [hgoto.settled_signal hsignal, howner t (by rw [hphase]; rfl), hphase,
      settled_some (s := s.goto t (.running k rest)) hafter, goto_self]
    rfl
  | unlocked t k hphase =>
    refine .inr ⟨rfl, ?_⟩
    rw [howner t (by rw [hphase]; rfl), hphase]
    rfl
  | woke act t k timedOut hphase _ => exact .inr ⟨rfl, h.settled_rouse hphase⟩
  | outside who s' hsignal => exact .inr ⟨rfl, h.settled_signal hsignal⟩

theorem LockInv.settled_eq (h : LockInv s) (hmove : Move prog s act s' r) (hr : r.entry = none) :
    s'.settled = s.settled := by
  rcases h.settled_step hmove with ⟨_, _, rfl, -⟩ | ⟨-, hsame⟩
  · cases hr
  · exact hsame

omit [DecidableEq ι] in
/-- Who has the lock has nothing left to do with it. -/
theorem LockInv.at_rest (h : LockInv s) (hholds : (s.phase t).holds = true)
    (hrest : (s.phase t).rest = []) :
    s.settled = s.data ∧ ∀ t', s.owner = some t' → (s.phase t').rest = [] := by
  have howner : s.owner = some t := (h.owner t).mpr hholds
  refine ⟨?_, fun t' ht' => ?_⟩
  · rw [settled_some howner, hrest]
    rfl
  · obtain rfl := Option.some.inj (howner.symm.trans ht')
    exact hrest

/-- The sections entered in a run, with the data found. -/
def entries (outs : List (Seen ι κ δ)) : List (κ × δ) := outs.filterMap Seen.entry

omit [DecidableEq ι] in
theorem entries_concat (outs : List (Seen ι κ δ)) (r : Seen ι κ δ) :
    entries (outs ++ [r]) = entries outs ++ r.entry.toList := by
  rw [entries, List.filterMap_append]
  cases h : r.entry <;> simp [entries, h]

/-- **A run of the threads is a run of whole sections.** -/
theorem run_atomic {acts : List (Act ι κ)} {outs : List (Seen ι κ δ)}
    (h : run (monitorStep prog) (start d₀) acts = some (s, outs)) :
    LockInv s ∧ run (atomicStep prog) d₀ ((entries outs).map Prod.fst) =
      some (s.settled, (entries outs).map Prod.snd) := by
  refine run_induction (fun _ outs s => LockInv s ∧ run (atomicStep prog) d₀
    ((entries outs).map Prod.fst) = some (s.settled, (entries outs).map Prod.snd))
    ⟨lockInv_start d₀, rfl⟩ ?_ (Always.of_forall (P := fun _ _ => True) fun _ _ _ => trivial) h
  rintro acts outs s act s' r ⟨hlock, hrun⟩ - hs
  have hmove := monitorStep_move hs
  refine ⟨hlock.step hmove, ?_⟩
  rw [entries_concat, List.map_append, List.map_append]
  rcases hlock.settled_step hmove with ⟨t, k, rfl, hready, hsettled⟩ | ⟨hnone, hsettled⟩
  · rw [show (Seen.entered t k s.settled : Seen ι κ δ).entry.toList = [(k, s.settled)] from rfl]
    refine run_concat_eq_some.mpr ⟨s.settled, _, s.settled, hrun, ?_, rfl⟩
    rw [atomicStep, if_pos hready, hsettled]
  · rw [hnone, Option.toList_none, List.map_nil, List.map_nil, List.append_nil, List.append_nil, hrun,
      hsettled]

/-! ### No wake-up is lost -/

/-- Whoever makes the data ready for a wait sends a signal. -/
def Signals (prog : κ → Section δ) : Prop :=
  ∀ k k' d, (prog k').ready d = true → (prog k).ready d = false →
    (prog k).ready (effect ((prog k').body d) d) = true → Instr.signal ∈ (prog k').body d

/-- The thread is in a section that may wait. -/
def Phase.waits (prog : κ → Section δ) (p : Phase κ δ) : Bool :=
  p.op.any fun k => (prog k).waits

/-- Only one thread at a time comes to a section that may wait. -/
def Alone (prog : κ → Section δ) (s : Sys ι κ δ) : Act ι κ → Prop
  | .call t k => (prog k).waits = true → ∀ t', t' ≠ t → (s.phase t').waits prog = false
  | _ => True

/-- At most one thread is in a section that may wait. -/
def AtMostOne (prog : κ → Section δ) (s : Sys ι κ δ) : Prop :=
  ∀ t t', (s.phase t).waits prog = true → (s.phase t').waits prog = true → t = t'

/-- Nobody who sleeps has something to wake up for, unless a signal is about to be sent. -/
structure Alert (prog : κ → Section δ) (s : Sys ι κ δ) : Prop where
  alone : AtMostOne prog s
  waits : ∀ t k, s.phase t = .asleep k → (prog k).waits = true
  alert : ∀ t k, s.phase t = .asleep k → (prog k).ready s.settled = false ∨
    ∃ t', s.owner = some t' ∧ Instr.signal ∈ (s.phase t').rest

omit [DecidableEq ι] in
theorem alert_start (d : δ) : Alert prog (start d : Sys ι κ δ) := ⟨nofun, nofun, nofun⟩

/-- A thread goes on in its section, or it leaves it. -/
theorem waits_goto {p : Phase κ δ} {t' : ι} (hop : p.op = none ∨ p.op = (s.phase t).op)
    (hwaits : ((s.goto t p).phase t').waits prog = true) : (s.phase t').waits prog = true := by
  by_cases hne : t' = t
  · subst hne
    rw [goto_self, Phase.waits] at hwaits
    rcases hop with hop | hop
    · rw [hop] at hwaits
      cases hwaits
    · rwa [hop] at hwaits
  · rwa [goto_ne hne] at hwaits

theorem AtMostOne.goto (h : AtMostOne prog s) {p : Phase κ δ}
    (hop : p.op = none ∨ p.op = (s.phase t).op) : AtMostOne prog (s.goto t p) :=
  fun t₁ t₂ h₁ h₂ => h t₁ t₂ (waits_goto hop h₁) (waits_goto hop h₂)

theorem waits_signal {who : Option ι} {t' : ι} (hsignal : s.signal who = some s')
    (hwaits : (s'.phase t').waits prog = true) : (s.phase t').waits prog = true := by
  rcases signal_cases hsignal with ⟨-, rfl⟩ | ⟨t, k, hphase, rfl⟩
  · exact hwaits
  · exact waits_goto (p := .woken k false) (.inr (by rw [hphase]; rfl)) hwaits

/-- A thread comes to a section that may wait by a call only. -/
theorem Move.waits (h : Move prog s act s' r) {t' : ι} (hwaits : (s'.phase t').waits prog = true) :
    (s.phase t').waits prog = true ∨ ∃ k, act = .call t' k ∧ (prog k).waits = true := by
  cases h with
  | called t k hphase =>
    by_cases hne : t' = t
    · subst hne
      rw [goto_self] at hwaits
      exact .inr ⟨k, rfl, hwaits⟩
    · rw [goto_ne hne] at hwaits
      exact .inl hwaits
  | locked t k _ hphase =>
    have hop : (Phase.checking k : Phase κ δ).op = (s.phase t).op := by
      rcases hphase with hphase | hphase <;> rw [hphase] <;> rfl
    exact .inl (waits_goto (.inr hop) hwaits)
  | late t k _ hphase | entered t k hphase _ | slept t k hphase _ | wrote t _ k _ _ hphase =>
    exact .inl (waits_goto (.inr (by rw [hphase]; rfl)) hwaits)
  | signalled t who k rest s' hphase hsignal =>
    exact .inl (waits_goto (.inr (by rw [hphase]; rfl)) (waits_signal hsignal hwaits))
  | unlocked t k _ => exact .inl (waits_goto (.inl rfl) hwaits)
  | woke act t k timedOut hphase _ =>
    exact .inl (waits_goto (p := .woken k timedOut) (.inr (by rw [hphase]; rfl)) hwaits)
  | outside who s' hsignal => exact .inl (waits_signal hsignal hwaits)

/-- Nobody falls asleep, and whoever has the lock still has its signal to send. -/
theorem Alert.goto (h : Alert prog s) {p : Phase κ δ} {owner : Option ι} {sleepers : List ι} {d : δ}
    (hop : p.op = none ∨ p.op = (s.phase t).op) (hawake : ∀ k, p ≠ .asleep k)
    (halert : ∀ t' k, t' ≠ t → s.phase t' = .asleep k →
      (prog k).ready (Sys.settled ⟨owner, sleepers, (s.goto t p).phase, d⟩) = false ∨
        ∃ t₁, owner = some t₁ ∧ Instr.signal ∈ ((s.goto t p).phase t₁).rest) :
    Alert prog ⟨owner, sleepers, (s.goto t p).phase, d⟩ where
  alone := h.alone.goto hop
  waits t' k hphase := by
    by_cases hne : t' = t
    · subst hne
      exact absurd ((goto_self s t' p).symm.trans hphase) (hawake k)
    · exact h.waits t' k ((goto_ne hne s p).symm.trans hphase)
  alert t' k hphase := by
    by_cases hne : t' = t
    · subst hne
      exact absurd ((goto_self s t' p).symm.trans hphase) (hawake k)
    · exact halert t' k hne ((goto_ne hne s p).symm.trans hphase)

omit [DecidableEq ι] in
/-- Whoever sleeps has nothing to wake up for when the lock is free, or when nothing is left
to do with it. -/
theorem Alert.idle (h : Alert prog s) (hrest : ∀ t', s.owner = some t' → (s.phase t').rest = [])
    (hphase : s.phase t = .asleep k) : (prog k).ready s.settled = false := by
  rcases h.alert t k hphase with hready | ⟨t', howner, hsignal⟩
  · exact hready
  · rw [hrest t' howner] at hsignal
    cases hsignal

/-- A thread without a signal to send goes on, and the data stay. -/
theorem Alert.keep (h : Alert prog s) {p : Phase κ δ} {owner : Option ι} {sleepers : List ι} {d : δ}
    (hop : p.op = none ∨ p.op = (s.phase t).op) (hawake : ∀ k, p ≠ .asleep k)
    (hrest : Instr.signal ∈ (s.phase t).rest → Instr.signal ∈ p.rest)
    (howner : s.owner = none ∨ owner = s.owner)
    (hsettled : Sys.settled ⟨owner, sleepers, (s.goto t p).phase, d⟩ = s.settled) :
    Alert prog ⟨owner, sleepers, (s.goto t p).phase, d⟩ := by
  refine h.goto hop hawake fun t' k hne hphase => ?_
  rw [hsettled]
  rcases h.alert t' k hphase with hready | ⟨t₁, ht₁, hsignal⟩
  · exact .inl hready
  · rcases howner with hfree | hsame
    · cases hfree.symm.trans ht₁
    · refine .inr ⟨t₁, hsame.trans ht₁, ?_⟩
      by_cases htt : t₁ = t
      · subst htt
        rw [goto_self]
        exact hrest hsignal
      · rwa [goto_ne htt]

theorem Alert.rouse (h : Alert prog s) (hlock : LockInv s) {timedOut : Bool}
    (hphase : s.phase t = .asleep k) : Alert prog (s.rouse t (.woken k timedOut)) :=
  h.keep (.inr (by rw [hphase]; rfl)) (by simp) (by rw [hphase]; exact id) (.inr rfl)
    (hlock.settled_rouse hphase)

/-- After a signal nobody sleeps. -/
theorem Alert.signalled (h : Alert prog s) (hlock : LockInv s) {who : Option ι} {p : Phase κ δ}
    (hop : p.op = (s.phase t).op) (hawake : ∀ k, p ≠ .asleep k)
    (hsignal : (s.goto t p).signal who = some s') : Alert prog s' := by
  have hone : AtMostOne prog (s.goto t p) := h.alone.goto (.inr hop)
  -- whoever sleeps slept before
  have hslept : ∀ t' k, (s.goto t p).phase t' = .asleep k → s.phase t' = .asleep k := by
    intro t' k hphase
    by_cases hne : t' = t
    · subst hne
      exact absurd ((goto_self s t' p).symm.trans hphase) (hawake k)
    · exact (goto_ne hne s p).symm.trans hphase
  have hnobody : AtMostOne prog s' ∧ ∀ t' k, s'.phase t' ≠ .asleep k := by
    rcases signal_cases hsignal with ⟨hempty, rfl⟩ | ⟨t₁, k₁, hphase₁, rfl⟩
    · refine ⟨hone, fun t' k hphase => ?_⟩
      have hmem := (hlock.sleepers t').mpr ⟨k, hslept t' k hphase⟩
      rw [show s.sleepers = [] from hempty] at hmem
      cases hmem
    · refine ⟨hone.goto (.inr (by rw [hphase₁]; rfl)), fun t' k hphase => ?_⟩
      change ((s.goto t p).goto t₁ (.woken k₁ false)).phase t' = .asleep k at hphase
      by_cases hne : t' = t₁
      · subst hne
        rw [goto_self] at hphase
        cases hphase
      · rw [goto_ne hne] at hphase
        have hwaits : ∀ t' k, s.phase t' = .asleep k → (s.phase t').waits prog = true := by
          intro t' k hphase
          rw [hphase]
          exact h.waits t' k hphase
        exact hne (h.alone t' t₁ (hwaits t' k (hslept t' k hphase))
          (hwaits t₁ k₁ (hslept t₁ k₁ hphase₁)))
  exact ⟨hnobody.1, fun t' k hphase => absurd hphase (hnobody.2 t' k),
    fun t' k hphase => absurd hphase (hnobody.2 t' k)⟩

/-- A thread comes to a section. -/
theorem Alert.called (h : Alert prog s) (hlock : LockInv s) (hphase : s.phase t = .out)
    (halone : Alone prog s (.call t k)) : Alert prog (s.goto t (.entering k)) where
  alone := by
    have hnew : (prog k).waits = true → ∀ t', t' ≠ t → (s.phase t').waits prog = false := halone
    intro t₁ t₂ h₁ h₂
    by_cases hne₁ : t₁ = t
    · by_cases hne₂ : t₂ = t
      · rw [hne₁, hne₂]
      · rw [hne₁, goto_self] at h₁
        rw [goto_ne hne₂, hnew h₁ t₂ hne₂] at h₂
        cases h₂
    · rw [goto_ne hne₁] at h₁
      by_cases hne₂ : t₂ = t
      · rw [hne₂, goto_self] at h₂
        rw [hnew h₂ t₁ hne₁] at h₁
        cases h₁
      · rw [goto_ne hne₂] at h₂
        exact h.alone t₁ t₂ h₁ h₂
  waits t' k' hphase' := by
    by_cases hne : t' = t
    · rw [hne, goto_self] at hphase'
      cases hphase'
    · rw [goto_ne hne] at hphase'
      exact h.waits t' k' hphase'
  alert t' k' hphase' := by
    by_cases hne : t' = t
    · rw [hne, goto_self] at hphase'
      cases hphase'
    · rw [goto_ne hne] at hphase'
      rw [hlock.settled_goto _ (by rw [hphase]; rfl)]
      rcases h.alert t' k' hphase' with hready | ⟨t₁, ht₁, hsignal⟩
      · exact .inl hready
      · refine .inr ⟨t₁, ht₁, ?_⟩
        have htt : t₁ ≠ t := by
          rintro rfl
          rw [hphase] at hsignal
          cases hsignal
        rwa [goto_ne htt]

/-- **One step.** -/
theorem Alert.step (h : Alert prog s) (hlock : LockInv s) (hsignals : Signals prog)
    (halone : Alone prog s act) (hmove : Move prog s act s' r) : Alert prog s' := by
  have hkept := hlock.settled_eq hmove
  have hsettled := hlock.settled_step hmove
  cases hmove with
  | called t k hphase => exact h.called hlock hphase halone
  | locked t k hfree hphase =>
    have hop : (Phase.checking k : Phase κ δ).op = (s.phase t).op := by
      rcases hphase with hphase | hphase <;> rw [hphase] <;> rfl
    have hrest : (s.phase t).rest = [] := by
      rcases hphase with hphase | hphase <;> rw [hphase] <;> rfl
    exact h.keep (.inr hop) (by simp) (by simp [hrest]) (.inl hfree) (hkept rfl)
  | late t k hfree hphase =>
    exact h.keep (.inr (by rw [hphase]; rfl)) (by simp) (by simp [hphase, Phase.rest]) (.inl hfree)
      (hkept rfl)
  | entered t k hphase hready =>
    obtain ⟨hnow, hrest⟩ := hlock.at_rest (t := t) (by rw [hphase]; rfl) (by rw [hphase]; rfl)
    rcases hsettled with ⟨t₁, k₁, hr, -, hafter⟩ | ⟨hr, -⟩
    · obtain ⟨rfl, rfl, -⟩ := Seen.entered.inj hr
      refine h.goto (.inr (by rw [hphase]; rfl)) (by simp) fun t' k' hne hphase' => ?_
      change (prog k').ready (s.goto t (.running k ((prog k).body s.data))).settled = false ∨ _
      -- a sleeper that has something to wake up for now has a signal coming
      have hidle := h.idle hrest hphase'
      rw [hnow] at hidle hafter
      rw [hafter]
      by_cases hstill : (prog k').ready (effect ((prog k).body s.data) s.data) = false
      · exact .inl hstill
      · refine .inr ⟨t, (hlock.owner t).mpr (by rw [hphase]; rfl), ?_⟩
        rw [goto_self]
        exact hsignals k' k s.data hready hidle ((Bool.not_eq_false _).mp hstill)
    · cases hr
  | slept t k hphase hready =>
    obtain ⟨hnow, hrest⟩ := hlock.at_rest (t := t) (by rw [hphase]; rfl) (by rw [hphase]; rfl)
    refine ⟨h.alone.goto (.inr (by rw [hphase]; rfl)), fun t' k' hphase' => ?_,
      fun t' k' hphase' => .inl ?_⟩
    · change (s.goto t (.asleep k)).phase t' = .asleep k' at hphase'
      by_cases hne : t' = t
      · rw [hne, goto_self] at hphase'
        obtain rfl := Phase.asleep.inj hphase'
        exact waits_of_not_ready hready
      · rw [goto_ne hne] at hphase'
        exact h.waits t' k' hphase'
    · change (s.goto t (.asleep k)).phase t' = .asleep k' at hphase'
      show (prog k').ready s.data = false
      by_cases hne : t' = t
      · rw [hne, goto_self] at hphase'
        obtain rfl := Phase.asleep.inj hphase'
        exact hready
      · rw [goto_ne hne] at hphase'
        rw [← hnow]
        exact h.idle hrest hphase'
  | wrote t who k f rest hphase =>
    exact h.keep (.inr (by rw [hphase]; rfl)) (by simp) (by simp [hphase, Phase.rest]) (.inr rfl)
      (hkept rfl)
  | signalled t who k rest s' hphase hsignal =>
    exact h.signalled hlock (by rw [hphase]; rfl) (by simp) hsignal
  | unlocked t k hphase =>
    obtain ⟨-, hrest⟩ := hlock.at_rest (t := t) (by rw [hphase]; rfl) (by rw [hphase]; rfl)
    refine h.goto (.inl rfl) (by simp) fun t' k' hne hphase' => .inl ?_
    change (prog k').ready (Sys.settled { s.goto t .out with owner := none }) = false
    rw [hkept rfl]
    exact h.idle hrest hphase'
  | woke act t k timedOut hphase _ => exact h.rouse hlock hphase
  | outside who s' hsignal =>
    rcases signal_cases hsignal with ⟨-, rfl⟩ | ⟨t, k, hphase, rfl⟩
    · exact h
    · exact h.rouse hlock hphase

/-- When there is one thread only that comes to such sections, it is alone there. -/
theorem alone_of_one {w : ι} {acts : List (Act ι κ)}
    (hone : ∀ t k, .call t k ∈ acts → (prog k).waits = true → t = w) :
    Always (monitorStep prog) (Alone prog) (start d₀) acts := by
  rw [always_iff]
  rintro earlier act later rfl s outs h
  -- nobody else is in one
  have hinv : ∀ t, (s.phase t).waits prog = true → t = w := by
    refine run_induction (P := fun _ act => ∀ t k, act = .call t k → (prog k).waits = true → t = w)
      (fun _ _ s => ∀ t, (s.phase t).waits prog = true → t = w)
      (fun _ hw => absurd hw Bool.false_ne_true) ?_
      (Always.of_forall fun act hact _ t k hcall => ?_) h
    · intro acts outs s act s' r ih hcall hs t hwaits
      rcases (monitorStep_move hs).waits hwaits with hbefore | ⟨k, hact, hk⟩
      · exact ih t hbefore
      · exact hcall t k hact hk
    · subst hcall
      exact hone t k (List.mem_append_left _ hact)
  cases act with
  | call t k =>
    intro hwaits t' hne
    have ht : t = w := hone t k (List.mem_append_right _ List.mem_cons_self) hwaits
    rw [← Bool.not_eq_true]
    exact fun hw => hne ((hinv t' hw).trans ht.symm)
  | lock _ | check _ | exec _ _ | unlock _ | wake _ | timeout _ | signal _ => trivial

/-- **No wake-up is lost.**  When the lock is free, whoever sleeps has to wait. -/
theorem no_lost_wakeup {acts : List (Act ι κ)} {outs : List (Seen ι κ δ)} (hsignals : Signals prog)
    (halone : Always (monitorStep prog) (Alone prog) (start d₀) acts)
    (h : run (monitorStep prog) (start d₀) acts = some (s, outs)) (hfree : s.owner = none)
    (hphase : s.phase t = .asleep k) : (prog k).ready s.data = false := by
  have hinv : LockInv s ∧ Alert prog s := by
    refine run_induction (fun _ _ s => LockInv s ∧ Alert prog s) ⟨lockInv_start d₀, alert_start d₀⟩ ?_
      halone h
    rintro acts outs s act s' r ⟨hlock, halert⟩ hact hs
    have hmove := monitorStep_move hs
    exact ⟨hlock.step hmove, halert.step hlock hsignals hact hmove⟩
  rw [← settled_none hfree]
  exact hinv.2.idle (fun t' ht' => by rw [hfree] at ht'; cases ht') hphase

/-! ### Going on -/

/-- The thread whose step it is. -/
def Act.thread : Act ι κ → Option ι
  | .call t _ | .lock t | .check t | .exec t _ | .unlock t | .wake t | .timeout t => some t
  | .signal _ => none

/-- A signal can always be sent. -/
theorem LockInv.signal_isSome (h : LockInv s) : ∃ who, (s.signal who).isSome := by
  cases hsleepers : s.sleepers with
  | nil =>
    refine ⟨none, ?_⟩
    rw [Sys.signal, hsleepers]
    rfl
  | cons t _ =>
    obtain ⟨k, hphase⟩ := (h.sleepers t).mp (by rw [hsleepers]; exact List.mem_cons_self)
    refine ⟨some t, ?_⟩
    rw [Sys.signal, hphase]
    rfl

/-- **Who has the lock can go on.** -/
theorem owner_goes (h : LockInv s) (howner : s.owner = some t) :
    ∃ act, act.thread = some t ∧ (monitorStep prog s act).isSome := by
  have hholds := (h.owner t).mp howner
  cases hphase : s.phase t with
  | out | entering k | asleep k | woken k timedOut =>
    rw [hphase] at hholds
    cases hholds
  | checking k =>
    refine ⟨.check t, rfl, ?_⟩
    rw [monitorStep, hphase]
    dsimp only
    split <;> rfl
  | running k rest =>
    cases rest with
    | nil =>
      refine ⟨.unlock t, rfl, ?_⟩
      rw [monitorStep, hphase]
      rfl
    | cons instr rest =>
      cases instr with
      | write f =>
        refine ⟨.exec t none, rfl, ?_⟩
        rw [monitorStep, hphase]
        rfl
      | signal =>
        have hgoto : LockInv (s.goto t (.running k rest)) :=
          h.goto (by rw [hphase]; rfl) (by simp [hphase]) (by simp) s.data
        obtain ⟨who, hwho⟩ := hgoto.signal_isSome
        refine ⟨.exec t who, rfl, ?_⟩
        rw [monitorStep, hphase]
        dsimp only
        rwa [Option.isSome_map]

/-- **Who wants the lock gets it when it is free.** -/
theorem lock_isSome (hfree : s.owner = none)
    (hphase : s.phase t = .entering k ∨ ∃ timedOut, s.phase t = .woken k timedOut) :
    (monitorStep prog s (.lock t)).isSome := by
  rw [monitorStep, hfree]
  rcases hphase with hphase | ⟨timedOut, hphase⟩
  · rw [hphase]
    rfl
  · rw [hphase]
    cases timedOut <;> rfl

omit [DecidableEq ι] in
/-- Where a thread in a section is when the lock is free. -/
theorem LockInv.phase_of_free (h : LockInv s) (hfree : s.owner = none) (hop : (s.phase t).op = some k) :
    s.phase t = .asleep k ∨ s.phase t = .entering k ∨ ∃ timedOut, s.phase t = .woken k timedOut := by
  have hholds := (h.owner t).not.mp (by rw [hfree]; nofun)
  cases hphase : s.phase t with
  | out =>
    rw [hphase] at hop
    cases hop
  | entering k' | asleep k' | woken k' timedOut =>
    rw [hphase] at hop
    obtain rfl := Option.some.inj hop
    simp
  | checking _ | running _ _ =>
    rw [hphase] at hholds
    exact absurd rfl hholds

/-- By `n` steps of its own the thread leaves its section. -/
def Leaves (prog : κ → Section δ) (t : ι) (n : ℕ) (s : Sys ι κ δ) : Prop :=
  ∃ own s' outs, (∀ act ∈ own, act.thread = some t) ∧ own.length = n ∧
    run (monitorStep prog) s own = some (s', outs) ∧ s'.phase t = .out

theorem Leaves.cons {n : ℕ} (h : Leaves prog t n s') (hact : act.thread = some t)
    (hs : monitorStep prog s act = some (s', r)) : Leaves prog t (n + 1) s := by
  obtain ⟨own, u, outs, hown, hlen, hrun, hout⟩ := h
  refine ⟨act :: own, u, r :: outs, fun act' hmem => ?_, by rw [List.length_cons, hlen],
    run_cons_eq_some.mpr ⟨s', r, outs, hs, hrun, rfl⟩, hout⟩
  rcases List.mem_cons.mp hmem with rfl | hmem
  · exact hact
  · exact hown act' hmem

theorem leaves_unlock (hphase : s.phase t = .running k []) : Leaves prog t 1 s := by
  have hs : monitorStep prog s (.unlock t) = some ({ s.goto t .out with owner := none }, .quiet) := by
    rw [monitorStep, hphase]
  have hout : Leaves prog t 0 { s.goto t .out with owner := none } :=
    ⟨[], _, [], by simp, rfl, rfl, goto_self s t .out⟩
  exact hout.cons rfl hs

/-- **A wait ends** by steps of the thread alone, when the lock is free and the data are as
they should be. -/
theorem wait_leaves (hfree : s.owner = none) (hready : (prog k).ready s.data = true)
    (hbody : (prog k).body s.data = [])
    (hphase : s.phase t = .entering k ∨ ∃ timedOut, s.phase t = .woken k timedOut) :
    ∃ n ≤ 3, Leaves prog t n s := by
  by_cases hlate : s.phase t = .woken k true
  · -- the deadline has come, and the data are not looked at
    have hs : monitorStep prog s (.lock t) =
        some ({ s.goto t (.running k []) with owner := some t }, .timedOut t k) := by
      rw [monitorStep, hfree, hlate]
      rfl
    have hrunning : Leaves prog t 1 { s.goto t (.running k []) with owner := some t } :=
      leaves_unlock (goto_self s t (.running k []))
    exact ⟨2, Nat.le_succ 2, hrunning.cons rfl hs⟩
  · have hlock : monitorStep prog s (.lock t) =
        some ({ s.goto t (.checking k) with owner := some t }, .quiet) := by
      rw [monitorStep, hfree]
      rcases hphase with hphase | ⟨timedOut, hphase⟩
      · rw [hphase]
        rfl
      · cases timedOut with
        | false =>
          rw [hphase]
          rfl
        | true => exact absurd hphase hlate
    have hcheck : ∀ u : Sys ι κ δ, u.phase t = .checking k → u.data = s.data →
        monitorStep prog u (.check t) = some (u.goto t (.running k []), .entered t k s.data) := by
      intro u hu hdata
      rw [monitorStep, hu, hdata]
      dsimp only
      rw [if_pos hready, hbody]
    have hrunning : Leaves prog t 2 { s.goto t (.checking k) with owner := some t } :=
      (leaves_unlock (goto_self _ t (.running k []))).cons rfl
        (hcheck { s.goto t (.checking k) with owner := some t } (goto_self s t (.checking k)) rfl)
    exact ⟨3, Nat.le_refl 3, hrunning.cons rfl hlock⟩

end Monitor
