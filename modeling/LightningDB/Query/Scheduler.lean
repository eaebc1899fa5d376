import LightningDB.Framework.Runs
import Mathlib.Data.List.Perm.Basic

/-!
# The scheduler

`execute_operator` makes a channel with room for 64 messages and returns its receiver.  An operator
that is parallel-safe is run by workers, which send while the consumer receives.  Any other
operator, and every operator if there is one thread, is run by the caller itself before it returns:
nobody receives then, and the caller waits for ever once the channel is full.
-/

namespace LightningDB

open Framework List Option

/-- What `get_next` returns, call after call: chunks, and then the end or an error. -/
structure Output (χ ε : Type) where
  chunks : List χ
  error : Option ε

/-- What a loop over `get_next` sends. -/
def Output.messages {χ ε : Type} (o : Output χ ε) : List (Except ε χ) :=
  o.chunks.map .ok ++ o.error.toList.map .error

/-- An operator; `partition i n` is the output of a copy of it after `set_partition`. -/
structure PhysicalOperator (χ ε : Type) where
  output : Output χ ε
  isParallelSafe : Bool
  tryParallelize : ℕ → Except ε (Option (Output χ ε))
  partition : ℕ → ℕ → Output χ ε

def channelCapacity : ℕ := 64

/-- A call: what each thread has still to send, the caller's first, whether the caller has returned,
the channel and the consumer. -/
structure Execution (χ ε : Type) where
  senders : List (List (Except ε χ))
  returned : Bool := false
  queue : List (Except ε χ) := []
  received : List (Except ε χ) := []
  ended : Bool := false

variable {χ ε : Type}

/-- A call, from where the workers have been spawned or the caller's own loop begins. -/
def PhysicalOperator.executeOperator (op : PhysicalOperator χ ε) (numThreads : ℕ) :
    Except ε (Execution χ ε) :=
  if 1 < numThreads ∧ op.isParallelSafe then
    (op.tryParallelize numThreads).map fun
      | some merged => { senders := [[], merged.messages] }
      | none =>
        { senders := [] :: (List.range numThreads).map fun i => (op.partition i numThreads).messages }
  else .ok { senders := [op.output.messages] }

/-- A thread sends a message, the caller returns, the consumer receives. -/
inductive ExecutionStep where
  | send (i : ℕ)
  | return
  | receive

namespace Execution

variable {s s' s₀ : Execution χ ε} {a : ExecutionStep} {sent : List (Except ε χ)}

/-- `send` waits while the channel is full.  The consumer waits for the receiver and for messages,
and comes to the end when there are no messages and every sender is dropped: a worker's with its
last message, the caller's when it returns. -/
def step (s : Execution χ ε) : ExecutionStep → Option (Execution χ ε)
  | .send i =>
    match s.senders[i]? with
    | some (m :: rest) =>
      if s.queue.length < channelCapacity then
        some { s with senders := s.senders.set i rest, queue := s.queue ++ [m] }
      else none
    | _ => none
  | .return =>
    match s.returned, s.senders with
    | false, [] :: _ => some { s with returned := true }
    | _, _ => none
  | .receive =>
    match s.returned, s.queue, s.ended with
    | true, m :: queue, _ => some { s with queue := queue, received := s.received ++ [m] }
    | true, [], false => if s.senders.flatten.isEmpty then some { s with ended := true } else none
    | _, _, _ => none

/-- The runs of a call. -/
def system (s₀ : Execution χ ε) : System (Execution χ ε) ExecutionStep where
  init := (· = s₀)
  step := step

/-- No run goes on for ever, and one that cannot go on is at its end: the call has returned, and
the consumer has received each message once and then the end of the stream. -/
def Delivers (s₀ : Execution χ ε) : Prop :=
  (∃ bound, ∀ steps s, s₀.system.exec s₀ steps = some s → steps.length ≤ bound) ∧
    ∀ s, s₀.system.Reachable s → (∀ a, s.step a = none) →
      s.returned = true ∧ s.ended = true ∧ s.received.Perm s₀.senders.flatten

/-- What a thread sends is taken from what the threads have to send. -/
lemma perm_flatten_set {α : Type} {l : List (List α)} {i : ℕ} {m : α} {rest : List α}
    (h : l[i]? = some (m :: rest)) : l.flatten.Perm (m :: (l.set i rest).flatten) := by
  induction l generalizing i with
  | nil => cases h
  | cons t l ih =>
    cases i with
    | zero =>
      cases h
      exact .refl _
    | succ i => exact ((ih h).append_left t).trans perm_middle

lemma step_cases (h : s.step a = some s') : (∃ i m rest, s.senders[i]? = some (m :: rest) ∧
      s' = { s with senders := s.senders.set i rest, queue := s.queue ++ [m] }) ∨
    (s.returned = false ∧ s' = { s with returned := true }) ∨
    s.returned = true ∧ ((∃ m queue, s.queue = m :: queue ∧
        s' = { s with queue := queue, received := s.received ++ [m] }) ∨
      s.queue = [] ∧ s.ended = false ∧ s.senders.flatten = [] ∧ s' = { s with ended := true }) := by
  cases a with
  | send i =>
    rw [step] at h
    split at h
    · split at h
      · exact .inl ⟨i, _, _, ‹_›, (some.inj h).symm⟩
      · cases h
    · cases h
  | «return» =>
    rw [step] at h
    split at h
    · exact .inr (.inl ⟨‹_›, (some.inj h).symm⟩)
    · cases h
  | receive =>
    rw [step] at h
    split at h
    · exact .inr (.inr ⟨‹_›, .inl ⟨_, _, ‹_›, (some.inj h).symm⟩⟩)
    · split at h
      · have hpending := isEmpty_iff.1 ‹_›
        exact .inr (.inr ⟨‹_›, .inr ⟨‹_›, ‹_›, hpending, (some.inj h).symm⟩⟩)
      · cases h
    · cases h

/-- The steps that are left. -/
def work (s : Execution χ ε) : ℕ :=
  2 * s.senders.flatten.length + s.queue.length + (!s.returned).toNat + (!s.ended).toNat

lemma work_step (h : s.step a = some s') : s'.work + 1 = s.work := by
  rcases step_cases h with ⟨i, m, rest, hi, rfl⟩ | ⟨hreturned, rfl⟩ |
    ⟨-, ⟨m, queue, hqueue, rfl⟩ | ⟨-, hended, -, rfl⟩⟩
  · have hlength := (perm_flatten_set hi).length_eq
    simp only [work, length_append, length_cons, length_nil] at hlength ⊢
    omega
  · simp [work, hreturned]
    omega
  · simp only [work, hqueue, length_cons]
    omega
  · simp only [work, hended]
    rfl

lemma length_le_work {steps : List ExecutionStep} (h : s₀.system.exec s steps = some s') :
    steps.length ≤ s.work := by
  induction steps generalizing s with
  | nil => exact Nat.zero_le _
  | cons a steps ih =>
    obtain ⟨t, hstep, hrest⟩ := bind_eq_some_iff.1 h
    rw [← work_step hstep]
    exact Nat.succ_le_succ (ih hrest)

/-- What holds in every state of a call: no message is lost, nothing is received before the call
has returned, and a caller who has still to send is `alone`. -/
structure Sound (alone : Prop) (sent : List (Except ε χ)) (s : Execution χ ε) : Prop where
  perm : (s.received ++ s.queue ++ s.senders.flatten).Perm sent
  early : s.returned = false → s.received = []
  caller : (∃ workers, s.senders = [] :: workers) ∨ alone ∧ s.senders.length = 1
  ended : s.ended = true → s.returned = true ∧ s.queue = [] ∧ s.senders.flatten = []

variable {alone : Prop}

lemma Sound.step (h : Sound alone sent s) (hstep : s.step a = some s') : Sound alone sent s' := by
  rcases step_cases hstep with ⟨i, m, rest, hi, rfl⟩ | ⟨hreturned, rfl⟩ |
    ⟨hreturned, ⟨m, queue, hqueue, rfl⟩ | ⟨hqueue, -, hpending, rfl⟩⟩
  · have hsent := perm_flatten_set hi
    refine ⟨.trans ?_ h.perm, h.early, ?_, fun hended => ?_⟩
    · simpa using (hsent.symm.append_left s.queue).append_left s.received
    · refine h.caller.imp (fun ⟨workers, hworkers⟩ => ?_) (And.imp_right length_set.trans)
      rw [hworkers] at hi ⊢
      cases i with
      | zero => cases hi
      | succ i => exact ⟨_, rfl⟩
    · rw [(h.ended hended).2.2] at hsent
      cases hsent.nil_eq
  · exact ⟨h.perm, nofun, h.caller, fun hended => ⟨rfl, (h.ended hended).2⟩⟩
  · refine ⟨by simpa [hqueue] using h.perm, fun h' => ?_, h.caller, fun hended => ?_⟩
    · cases hreturned.symm.trans h'
    · cases hqueue.symm.trans (h.ended hended).2.1
  · exact ⟨h.perm, h.early, h.caller, fun _ => ⟨hreturned, hqueue, hpending⟩⟩

/-- **Where a run can stop**: at its end, or with a caller who waits for room. -/
lemma Sound.of_stuck (h : Sound alone sent s) (hstuck : ∀ a, s.step a = none) :
    (s.returned = true ∧ s.ended = true ∧ s.received.Perm sent) ∨
      alone ∧ channelCapacity < sent.length := by
  -- whoever has something to send finds the channel full
  have hfull : s.senders.flatten ≠ [] → channelCapacity ≤ s.queue.length := by
    intro hne
    obtain ⟨l, hl, hlne⟩ := flatten_ne_nil_iff.1 hne
    obtain ⟨i, hi⟩ := mem_iff_getElem?.1 hl
    obtain ⟨m, rest, rfl⟩ := exists_cons_of_ne_nil hlne
    have hsend := hstuck (.send i)
    rw [Execution.step, hi] at hsend
    simpa using hsend
  cases hreturned : s.returned with
  | false =>
    have hreturn := hstuck .return
    rw [Execution.step, hreturned] at hreturn
    obtain ⟨workers, hworkers⟩ | ⟨halone, hone⟩ := h.caller
    · rw [hworkers] at hreturn
      cases hreturn
    · obtain ⟨l, hl⟩ := length_eq_one_iff.1 hone
      have hlength := h.perm.length_eq
      cases l with
      | nil =>
        rw [hl] at hreturn
        cases hreturn
      | cons m rest =>
        have hle := hfull (by simp [hl])
        simp [h.early hreturned, hl] at hlength
        exact .inr ⟨halone, by omega⟩
  | true =>
    have hreceive := hstuck .receive
    rw [Execution.step, hreturned] at hreceive
    cases hended : s.ended with
    | true =>
      obtain ⟨-, hqueue, hpending⟩ := h.ended hended
      exact .inl ⟨rfl, rfl, by simpa [hqueue, hpending] using h.perm⟩
    | false =>
      cases hqueue : s.queue with
      | cons m queue => simp [hqueue] at hreceive
      | nil =>
        have hpending : s.senders.flatten = [] := by
          by_contra hne
          have hle := hfull hne
          rw [hqueue] at hle
          cases hle
        simp [hqueue, hended, hpending] at hreceive

/-- The messages of a caller who is alone go into the channel until it is full. -/
lemma reachable_full {messages : List (Except ε χ)} {n : ℕ} (hn : n ≤ channelCapacity)
    (hle : n ≤ messages.length) : (system { senders := [messages] }).Reachable
      { senders := [messages.drop n], queue := messages.take n } := by
  induction n with
  | zero => exact .init rfl
  | succ n ih =>
    refine .step (a := .send 0) (ih (Nat.le_of_succ_le hn) (Nat.le_of_succ_le hle)) trivial ?_
    rw [drop_eq_getElem_cons hle, take_succ_eq_append_getElem hle]
    exact if_pos (by simpa using Nat.lt_of_le_of_lt (Nat.min_le_left n _) hn)

lemma Sound.delivers (h : Sound alone s₀.senders.flatten s₀)
    (hfits : alone → s₀.senders.flatten.length ≤ channelCapacity) : s₀.Delivers := by
  refine ⟨⟨s₀.work, fun _ _ => length_le_work⟩, fun s hs hstuck => ?_⟩
  have hsound : Sound alone s₀.senders.flatten s :=
    hs.invariant (fun s hs => hs ▸ h) fun _ _ _ _ h _ hstep => h.step hstep
  exact (hsound.of_stuck hstuck).resolve_right fun ⟨halone, hlt⟩ => Nat.not_le.2 hlt (hfits halone)

lemma delivers_workers (outputs : List (List (Except ε χ))) :
    Delivers { senders := [] :: outputs } :=
  Sound.delivers ⟨.refl _, fun _ => rfl, .inl ⟨_, rfl⟩, nofun⟩ False.elim

lemma delivers_alone_iff (messages : List (Except ε χ)) :
    Delivers { senders := [messages] } ↔ messages.length ≤ channelCapacity := by
  constructor
  · intro h
    by_contra hlt
    have hle := Nat.le_of_not_le hlt
    obtain ⟨m, rest, hdrop⟩ := exists_cons_of_ne_nil (mt drop_eq_nil_iff.1 hlt)
    have hfull : (messages.take channelCapacity).length = channelCapacity := by
      rw [length_take, Nat.min_eq_left hle]
    obtain ⟨⟨⟩, -⟩ := h.2 _ (reachable_full (Nat.le_refl _) hle) fun a => by
      cases a with
      | send i => cases i <;> simp [step, hdrop, hfull]
      | «return» => simp [step, hdrop]
      | receive => rfl
  · intro hle
    exact Sound.delivers ⟨.refl _, fun _ => rfl, .inr ⟨trivial, rfl⟩, nofun⟩
      fun _ => by simpa using hle

end Execution

/-- **The scheduler delivers** just if workers run the operator or its messages fit into the
channel. -/
theorem execute_operator_delivers_iff (op : PhysicalOperator χ ε) (numThreads : ℕ)
    {s₀ : Execution χ ε} (h : op.executeOperator numThreads = .ok s₀) : s₀.Delivers ↔
      1 < numThreads ∧ op.isParallelSafe ∨ op.output.messages.length ≤ channelCapacity := by
  rw [PhysicalOperator.executeOperator] at h
  split at h
  next hparallel =>
    refine iff_of_true ?_ (.inl hparallel)
    cases htry : op.tryParallelize numThreads with
    | error e =>
      rw [htry] at h
      cases h
    | ok merged =>
      rw [htry] at h
      cases h
      cases merged <;> exact Execution.delivers_workers _
  next halone =>
    cases h
    rw [Execution.delivers_alone_iff, or_iff_right halone]

/-- An operator with chunks to send and no use for workers. -/
def countTo (n : ℕ) : PhysicalOperator ℕ Empty :=
  ⟨⟨List.range n, none⟩, false, fun _ => .ok none, fun _ _ => ⟨[], none⟩⟩

theorem execute_operator_delivers_few :
    Execution.Delivers { senders := [(countTo 3).output.messages] } :=
  (execute_operator_delivers_iff (countTo 3) 8 rfl).2 (.inr (by decide))

theorem execute_operator_blocks : ∃ s₀, (countTo 65).executeOperator 8 = .ok s₀ ∧ ¬ s₀.Delivers :=
  ⟨_, rfl, (Execution.delivers_alone_iff _).not.2 (by decide)⟩

end LightningDB
