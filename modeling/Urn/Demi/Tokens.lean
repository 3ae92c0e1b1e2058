import Mathlib.Data.List.Perm.Basic
import Urn.Demi.Forwarding

/-!
# Pops and their tokens

Each iteration of the loop issues two pops and obtains the result of one.  The
other pop stays outstanding, but its token is overwritten by the next iteration,
and the datagram that it takes cannot be obtained any more.

So a token is discarded in every iteration, and a datagram is lost as soon as
datagrams arrive on both queues and an iteration has been completed.
-/

namespace Urn.Demi

open Relay Execution

variable {Endpoint : Type}

namespace Side

theorem other_ne (side : Side) : side.other ≠ side := by
  cases side <;> decide

@[simp]
theorem other_other (side : Side) : side.other.other = side := by
  cases side <;> rfl

theorem eq_other_of_ne {side any : Side} (different : any ≠ side) : any = side.other := by
  cases side <;> cases any <;> first | rfl | contradiction

end Side

namespace Queue

/-- The tokens whose results have not been obtained. -/
def tokens (queue : Queue Endpoint) : List Token :=
  queue.outstanding ++ queue.completed.map Prod.fst

/-- The queue has received `total`, and the results in `handled` have been obtained. -/
structure Balanced (queue : Queue Endpoint) (total handled : List (Sga Endpoint)) : Prop where
  popped : queue.popped.Perm (handled ++ queue.completed.map Prod.snd)
  total : total = queue.popped ++ queue.arrived
  matched : queue.outstanding = [] ∨ queue.arrived = []

variable {queue : Queue Endpoint} {total handled : List (Sga Endpoint)}

theorem balanced_empty : (empty : Queue Endpoint).Balanced [] [] where
  popped := List.Perm.refl _
  total := rfl
  matched := Or.inl rfl

theorem Balanced.completed_eq_nil (balanced : queue.Balanced total handled)
    (none_popped : queue.popped = []) : queue.completed = [] := by
  have popped := balanced.popped
  rw [none_popped] at popped
  have nothing := List.append_eq_nil_iff.mp (List.nil_perm.mp popped)
  exact List.map_eq_nil_iff.mp nothing.2

theorem Balanced.popped_eq_nil (balanced : queue.Balanced [] handled) : queue.popped = [] :=
  (List.append_eq_nil_iff.mp balanced.total.symm).1

theorem Balanced.arrived_eq_nil (balanced : queue.Balanced total handled) {token : Token}
    {rest : List Token} (waits : queue.outstanding = token :: rest) : queue.arrived = [] := by
  apply balanced.matched.resolve_left
  simp [waits]

theorem Balanced.pop (balanced : queue.Balanced total handled) (token : Token) :
    (queue.pop token).Balanced total handled := by
  cases arrived : queue.arrived with
  | nil =>
      have pop_eq : queue.pop token =
          { queue with outstanding := queue.outstanding ++ [token] } := by
        simp [Queue.pop, arrived]
      rw [pop_eq]
      exact ⟨balanced.popped, balanced.total, Or.inr arrived⟩
  | cons sga rest =>
      have pop_eq : queue.pop token =
          { queue with
            arrived := rest
            completed := queue.completed ++ [(token, sga)]
            popped := queue.popped ++ [sga] } := by
        simp [Queue.pop, arrived]
      rw [pop_eq]
      constructor
      · simpa using balanced.popped.append_right [sga]
      · simpa [arrived] using balanced.total
      · left
        rcases balanced.matched with none_outstanding | none_arrived
        · exact none_outstanding
        · rw [arrived] at none_arrived
          contradiction

theorem Balanced.arrive (balanced : queue.Balanced total handled) (sga : Sga Endpoint) :
    (queue.arrive sga).Balanced (total ++ [sga]) handled := by
  cases outstanding : queue.outstanding with
  | nil =>
      have arrive_eq : queue.arrive sga = { queue with arrived := queue.arrived ++ [sga] } := by
        simp [Queue.arrive, outstanding]
      rw [arrive_eq]
      refine ⟨balanced.popped, ?_, Or.inl outstanding⟩
      rw [balanced.total, List.append_assoc]
  | cons token rest =>
      have none_arrived := balanced.arrived_eq_nil outstanding
      have arrive_eq : queue.arrive sga =
          { queue with
            outstanding := rest
            completed := queue.completed ++ [(token, sga)]
            popped := queue.popped ++ [sga] } := by
        simp [Queue.arrive, outstanding]
      rw [arrive_eq]
      constructor
      · simpa using balanced.popped.append_right [sga]
      · simpa [none_arrived] using balanced.total
      · exact Or.inr none_arrived

theorem completed_perm {token : Token} {sga : Sga Endpoint}
    (complete : queue.result? token = some sga) :
    queue.completed.Perm ((token, sga) :: (queue.drop token).completed) := by
  rcases Option.map_eq_some_iff.mp complete with ⟨⟨found_token, found_sga⟩, found, rfl⟩
  rcases List.find?_eq_some_iff_append.mp found with ⟨sameToken, before, after, split_eq, others⟩
  have token_eq : found_token = token := of_decide_eq_true sameToken
  have dropped : (queue.drop token).completed = before ++ after := by
    have earlier : ∀ other ∈ before, ¬decide (other.1 = token) = true := by
      intro other other_mem
      simpa using others other other_mem
    simp [drop, split_eq, List.eraseP_append_right _ earlier, token_eq]
  rw [dropped, split_eq, token_eq]
  exact List.perm_middle

theorem Balanced.drop (balanced : queue.Balanced total handled) {token : Token}
    {sga : Sga Endpoint} (complete : queue.result? token = some sga) :
    (queue.drop token).Balanced total (handled ++ [sga]) := by
  refine ⟨?_, balanced.total, balanced.matched⟩
  have results := (completed_perm complete).map Prod.snd
  apply balanced.popped.trans
  simpa using results.append_left handled

theorem tokens_pop (queue : Queue Endpoint) (token : Token) :
    (queue.pop token).tokens.Perm (token :: queue.tokens) := by
  cases arrived : queue.arrived with
  | nil =>
      have tokens_eq : (queue.pop token).tokens =
          queue.outstanding ++ token :: queue.completed.map Prod.fst := by
        simp [tokens, Queue.pop, arrived]
      rw [tokens_eq]
      exact List.perm_middle
  | cons sga rest =>
      have tokens_eq : (queue.pop token).tokens = queue.tokens ++ [token] := by
        simp [tokens, Queue.pop, arrived]
      rw [tokens_eq]
      exact List.perm_append_singleton token queue.tokens

theorem tokens_arrive (queue : Queue Endpoint) (sga : Sga Endpoint) :
    (queue.arrive sga).tokens.Perm queue.tokens := by
  cases outstanding : queue.outstanding with
  | nil => simp [tokens, Queue.arrive, outstanding]
  | cons token rest =>
      have arrived_eq : (queue.arrive sga).tokens =
          (rest ++ queue.completed.map Prod.fst) ++ [token] := by
        simp [tokens, Queue.arrive, outstanding]
      rw [arrived_eq, tokens, outstanding]
      exact List.perm_append_singleton token _

theorem tokens_drop {token : Token} {sga : Sga Endpoint}
    (complete : queue.result? token = some sga) :
    queue.tokens.Perm (token :: (queue.drop token).tokens) := by
  have completions := ((completed_perm complete).map Prod.fst).append_left queue.outstanding
  exact completions.trans List.perm_middle

theorem le_of_mem_tokens_pop {current next : Token}
    (below : ∀ token ∈ queue.tokens, token ≤ current) (later : current < next) :
    ∀ token ∈ (queue.pop next).tokens, token ≤ next := by
  intro token token_mem
  rcases List.mem_cons.mp ((tokens_pop queue next).mem_iff.mp token_mem) with rfl | old
  · exact Nat.le_refl _
  · exact (below token old).trans later.le

/-- A pop with an older token than the current one has taken a datagram, or will take
the first one to arrive. -/
def Starved (queue : Queue Endpoint) (current : Token) : Prop :=
  (∃ token sga, (token, sga) ∈ queue.completed ∧ token < current) ∨
    (queue.popped = [] ∧ ∃ token rest, queue.outstanding = token :: rest ∧ token < current)

variable {current next : Token}

theorem Starved.arrive (starved : queue.Starved current) (sga : Sga Endpoint) :
    (queue.arrive sga).Starved current := by
  left
  rcases starved with ⟨token, lost, lost_mem, older⟩ | ⟨-, token, rest, outstanding, older⟩
  · refine ⟨token, lost, ?_, older⟩
    cases outstanding : queue.outstanding with
    | nil => simpa [Queue.arrive, outstanding] using lost_mem
    | cons first rest => simp [Queue.arrive, outstanding, lost_mem]
  · refine ⟨token, sga, ?_, older⟩
    simp [Queue.arrive, outstanding]

theorem Starved.pop (starved : queue.Starved current) (balanced : queue.Balanced total handled)
    (later : current ≤ next) (token : Token) : (queue.pop token).Starved next := by
  rcases starved with ⟨old, lost, lost_mem, older⟩ | ⟨none_popped, old, rest, outstanding, older⟩
  · left
    refine ⟨old, lost, ?_, Nat.lt_of_lt_of_le older later⟩
    cases arrived : queue.arrived with
    | nil => simpa [Queue.pop, arrived] using lost_mem
    | cons sga rest => simp [Queue.pop, arrived, lost_mem]
  · right
    have none_arrived := balanced.arrived_eq_nil outstanding
    refine ⟨?_, old, rest ++ [token], ?_, Nat.lt_of_lt_of_le older later⟩
    · simpa [Queue.pop, none_arrived] using none_popped
    · simp [Queue.pop, none_arrived, outstanding]

theorem Starved.drop (starved : queue.Starved current) (balanced : queue.Balanced total handled)
    {sga : Sga Endpoint} (complete : queue.result? current = some sga) :
    (queue.drop current).Starved current := by
  have obtained : (current, sga) ∈ queue.completed :=
    (completed_perm complete).mem_iff.mpr List.mem_cons_self
  rcases starved with ⟨old, lost, lost_mem, older⟩ | ⟨none_popped, -⟩
  · left
    refine ⟨old, lost, ?_, older⟩
    have found := (completed_perm complete).mem_iff.mp lost_mem
    rcases List.mem_cons.mp found with same | kept
    · have token_eq : old = current := congrArg Prod.fst same
      exact absurd token_eq (Nat.ne_of_lt older)
    · exact kept
  · rw [balanced.completed_eq_nil none_popped] at obtained
    contradiction

/-- The current pop is the first of its queue; it will not be the current one any more. -/
theorem Balanced.starved (balanced : queue.Balanced total []) (only : queue.tokens = [current])
    (later : current < next) : queue.Starved next := by
  cases outstanding : queue.outstanding with
  | nil =>
      left
      rw [tokens, outstanding, List.nil_append] at only
      have current_mem : current ∈ queue.completed.map Prod.fst := by
        simp [only]
      rcases List.mem_map.mp current_mem with ⟨⟨token, sga⟩, sga_mem, rfl⟩
      exact ⟨token, sga, sga_mem, later⟩
  | cons first rest =>
      right
      rw [tokens, outstanding, List.cons_append, List.cons.injEq] at only
      have none_completed := List.map_eq_nil_iff.mp (List.append_eq_nil_iff.mp only.2).2
      have popped := balanced.popped
      rw [none_completed] at popped
      exact ⟨List.perm_nil.mp popped, first, rest, outstanding, only.1 ▸ later⟩

end Queue

/-- The datagrams that have arrived on a queue. -/
def arrivals (side : Side) (events : List (Event Endpoint)) : List (Sga Endpoint) :=
  events.filterMap fun event =>
    match event with
    | .arrives on sga => if on = side then some sga else none
    | .returns _ => none

theorem arrivals_snoc_arrives (events : List (Event Endpoint)) (side : Side)
    (sga : Sga Endpoint) :
    arrivals side (events ++ [.arrives side sga]) = arrivals side events ++ [sga] := by
  simp [arrivals]

theorem arrivals_snoc_arrives_of_ne {side any : Side} (different : any ≠ side)
    (events : List (Event Endpoint)) (sga : Sga Endpoint) :
    arrivals any (events ++ [.arrives side sga]) = arrivals any events := by
  simp [arrivals, different.symm]

theorem arrivals_snoc_returns (events : List (Event Endpoint)) (side any : Side) :
    arrivals any (events ++ [.returns side]) = arrivals any events := by
  simp [arrivals]

theorem mem_arrivals {events : List (Event Endpoint)} {side : Side} {sga : Sga Endpoint} :
    sga ∈ arrivals side events ↔ .arrives side sga ∈ events := by
  constructor
  · intro sga_mem
    rcases List.mem_filterMap.mp sga_mem with ⟨event, event_mem, found⟩
    cases event with
    | returns on => simp at found
    | arrives on other =>
        by_cases same : on = side
        · simp only [if_pos same, Option.some.injEq] at found
          rwa [same, found] at event_mem
        · simp [if_neg same] at found
  · intro event_mem
    exact List.mem_filterMap.mpr ⟨.arrives side sga, event_mem, by simp⟩

/-- No iteration is completed. -/
def NoIteration (events : List (Event Endpoint)) : Prop :=
  ∀ side, .returns side ∉ events

/-- All datagrams arrive on one queue. -/
def ArriveOnOneQueue (events : List (Event Endpoint)) : Prop :=
  ∃ side, ∀ on sga, .arrives on sga ∈ events → on = side

namespace Machine

/-- The datagrams from one queue that the relay has been called with. -/
def handled (machine : Machine Endpoint) (side : Side) : List (Sga Endpoint) :=
  (machine.delivered.filter fun delivery => delivery.side = side).map Delivery.sga

/-- The results that can still be obtained. -/
def pending (machine : Machine Endpoint) (side : Side) : List (Sga Endpoint) :=
  ((machine.queues side).completed.filter fun completion =>
    completion.1 = machine.opToken side).map Prod.snd

/-- Each datagram that a pop has taken has been passed to the relay once, or will be. -/
def NoDatagramLost (machine : Machine Endpoint) : Prop :=
  ∀ side, (machine.queues side).popped.Perm (machine.handled side ++ machine.pending side)

/-- The worker knows the token of each pop whose result it has not obtained. -/
def NoTokenDiscarded (machine : Machine Endpoint) : Prop :=
  ∀ side, ∀ token ∈ (machine.queues side).tokens, token = machine.opToken side

/-- The token of the next pop on each queue. -/
def issued (machine : Machine Endpoint) : Side → Token
  | .client => machine.nextToken
  | .peer => machine.nextToken + 1

section Steps

variable {machine after : Machine Endpoint} {thread : UInt16}

theorem beginFrame_queues (machine : Machine Endpoint) (side : Side) :
    machine.beginFrame.queues side = (machine.queues side).pop (machine.issued side) := by
  cases side <;> simp [beginFrame, pop, issued]

theorem beginFrame_opToken (machine : Machine Endpoint) (side : Side) :
    machine.beginFrame.opToken side = machine.issued side := by
  cases side <;> rfl

theorem step_arrives {side : Side} {sga : Sga Endpoint}
    (stepped : step thread machine (.arrives side sga) = .ok after) :
    after.worker = machine.worker ∧ after.nextToken = machine.nextToken ∧
      after.delivered = machine.delivered ∧
      after.queues = Function.update machine.queues side ((machine.queues side).arrive sga) := by
  simp only [step, Except.ok.injEq] at stepped
  subst stepped
  exact ⟨rfl, rfl, rfl, rfl⟩

/-- What an iteration does to the queues and the tokens. -/
structure Completes (machine after : Machine Endpoint) (side : Side) (sga : Sga Endpoint) :
    Prop where
  complete : (machine.queues side).result? (machine.opToken side) = some sga
  ready : after.queues side =
    ((machine.queues side).drop (machine.opToken side)).pop (machine.issued side)
  other : after.queues side.other = (machine.queues side.other).pop (machine.issued side.other)
  opToken : ∀ any, after.opToken any = machine.issued any
  nextToken : after.nextToken = machine.nextToken + 2
  delivered : after.delivered = machine.delivered ++ [⟨side, sga⟩]

theorem step_returns {side : Side} (stepped : step thread machine (.returns side) = .ok after) :
    ∃ sga, machine.Completes after side sga := by
  cases complete : (machine.queues side).result? (machine.opToken side) with
  | none => simp [step, complete] at stepped
  | some sga =>
      simp only [step, complete, finish] at stepped
      split at stepped
      · contradiction
      · simp only [Except.ok.injEq] at stepped
        subst stepped
        refine ⟨sga, complete, ?_, ?_, beginFrame_opToken _, rfl, rfl⟩
        · rw [beginFrame_queues]
          simp only [Function.update_self]
          rfl
        · rw [beginFrame_queues]
          simp only [Function.update_of_ne side.other_ne]
          rfl

/-- How the events account for the queues and the tokens of a machine. -/
structure Accounted (events : List (Event Endpoint)) (machine : Machine Endpoint) : Prop where
  balanced : ∀ side, (machine.queues side).Balanced (arrivals side events) (machine.handled side)
  below : ∀ side, ∀ token ∈ (machine.queues side).tokens, token ≤ machine.opToken side
  fresh : ∀ side, machine.opToken side < machine.nextToken
  unreturned : NoIteration events →
    machine.delivered = [] ∧ ∀ side, (machine.queues side).tokens = [machine.opToken side]
  quiet : ∀ side, arrivals side.other events = [] →
    (machine.queues side).tokens = [machine.opToken side]
  starved : ¬NoIteration events →
    ∃ side, (machine.queues side).Starved (machine.opToken side)

theorem accounted_init : Accounted [] (init : Machine Endpoint).beginFrame where
  balanced side := by
    rw [beginFrame_queues]
    exact Queue.balanced_empty.pop _
  below side token token_mem := by
    rw [beginFrame_queues] at token_mem
    rw [beginFrame_opToken]
    have single := (Queue.tokens_pop Queue.empty (init.issued side)).mem_iff.mp token_mem
    exact (List.mem_singleton.mp single).le
  fresh side := by
    cases side
    · exact Nat.zero_lt_two
    · exact Nat.one_lt_two
  unreturned _ := by
    refine ⟨rfl, ?_⟩
    intro side
    cases side <;> rfl
  quiet side _ := by
    cases side <;> rfl
  starved returned := by
    refine absurd ?_ returned
    intro side side_mem
    contradiction

theorem Accounted.arrives {events : List (Event Endpoint)} (accounted : Accounted events machine)
    {side : Side} {sga : Sga Endpoint}
    (stepped : step thread machine (.arrives side sga) = .ok after) :
    Accounted (events ++ [.arrives side sga]) after := by
  rcases step_arrives stepped with ⟨worker_eq, nextToken_eq, delivered_eq, queues_eq⟩
  have opToken_eq (any : Side) : after.opToken any = machine.opToken any := by
    rw [opToken, worker_eq, opToken]
  have self_eq : after.queues side = (machine.queues side).arrive sga := by
    rw [queues_eq, Function.update_self]
  have other_eq {any : Side} (different : any ≠ side) : after.queues any = machine.queues any := by
    rw [queues_eq, Function.update_of_ne different]
  have tokens_perm (any : Side) : (after.queues any).tokens.Perm (machine.queues any).tokens := by
    by_cases same : any = side
    · subst same
      rw [self_eq]
      exact Queue.tokens_arrive _ _
    · rw [other_eq same]
  have tokens_eq {any : Side} (only : (machine.queues any).tokens = [machine.opToken any]) :
      (after.queues any).tokens = [after.opToken any] := by
    rw [opToken_eq]
    exact List.perm_singleton.mp (only ▸ tokens_perm any)
  constructor
  · intro any
    have handled_eq : after.handled any = machine.handled any := by
      rw [handled, delivered_eq, handled]
    rw [handled_eq]
    by_cases same : any = side
    · subst same
      rw [self_eq, arrivals_snoc_arrives]
      exact (accounted.balanced any).arrive sga
    · rw [other_eq same, arrivals_snoc_arrives_of_ne same]
      exact accounted.balanced any
  · intro any token token_mem
    rw [opToken_eq]
    exact accounted.below any token ((tokens_perm any).mem_iff.mp token_mem)
  · intro any
    rw [opToken_eq, nextToken_eq]
    exact accounted.fresh any
  · intro unreturned
    have unreturned' : NoIteration events := by
      intro any any_mem
      exact unreturned any (List.mem_append_left _ any_mem)
    rcases accounted.unreturned unreturned' with ⟨none_delivered, only⟩
    exact ⟨delivered_eq.trans none_delivered, fun any => tokens_eq (only any)⟩
  · intro any quiet
    have quiet' : arrivals any.other events = [] := by
      by_cases same : any.other = side
      · subst same
        rw [arrivals_snoc_arrives] at quiet
        simp at quiet
      · rwa [arrivals_snoc_arrives_of_ne same] at quiet
    exact tokens_eq (accounted.quiet any quiet')
  · intro returned
    have returned' : ¬NoIteration events := by
      intro unreturned
      apply returned
      intro any any_mem
      rcases List.mem_append.mp any_mem with earlier | last
      · exact unreturned any earlier
      · simp at last
    rcases accounted.starved returned' with ⟨any, starved⟩
    refine ⟨any, ?_⟩
    rw [opToken_eq]
    by_cases same : any = side
    · subst same
      rw [self_eq]
      exact starved.arrive sga
    · rwa [other_eq same]

theorem issued_ge (machine : Machine Endpoint) (side : Side) :
    machine.nextToken ≤ machine.issued side := by
  cases side <;> simp [issued]

theorem Accounted.returns {events : List (Event Endpoint)} (accounted : Accounted events machine)
    {side : Side} (stepped : step thread machine (.returns side) = .ok after) :
    Accounted (events ++ [.returns side]) after := by
  rcases step_returns stepped with ⟨sga, completes⟩
  have obtained := Queue.tokens_drop completes.complete
  have balancedSelf := (accounted.balanced side).drop completes.complete
  have later (any : Side) : machine.opToken any < machine.issued any :=
    Nat.lt_of_lt_of_le (accounted.fresh any) (machine.issued_ge any)
  have handledSelf : after.handled side = machine.handled side ++ [sga] := by
    simp [handled, completes.delivered]
  have handledOther : after.handled side.other = machine.handled side.other := by
    simp [handled, completes.delivered, side.other_ne.symm]
  constructor
  · intro any
    rw [arrivals_snoc_returns]
    by_cases same : any = side
    · subst same
      rw [completes.ready, handledSelf]
      exact balancedSelf.pop _
    · rw [Side.eq_other_of_ne same, completes.other, handledOther]
      exact (accounted.balanced _).pop _
  · intro any
    rw [completes.opToken]
    by_cases same : any = side
    · subst same
      rw [completes.ready]
      refine Queue.le_of_mem_tokens_pop ?_ (later any)
      intro token token_mem
      exact accounted.below any token (obtained.mem_iff.mpr (List.mem_cons_of_mem _ token_mem))
    · rw [Side.eq_other_of_ne same, completes.other]
      exact Queue.le_of_mem_tokens_pop (accounted.below side.other) (later side.other)
  · intro any
    rw [completes.opToken, completes.nextToken]
    cases any <;> simp [issued]
  · intro unreturned
    exact absurd (List.mem_append_right _ List.mem_cons_self) (unreturned side)
  · intro any quiet
    rw [arrivals_snoc_returns] at quiet
    by_cases same : any = side
    · subst same
      rw [accounted.quiet any quiet] at obtained
      have rest_nil : ((machine.queues any).drop (machine.opToken any)).tokens = [] := by
        have rest_perm := (List.perm_cons _).mp obtained
        exact (List.nil_perm.mp rest_perm)
      have new_perm := Queue.tokens_pop ((machine.queues any).drop (machine.opToken any))
        (machine.issued any)
      rw [rest_nil] at new_perm
      rw [completes.ready, completes.opToken]
      exact List.perm_singleton.mp new_perm
    · rw [Side.eq_other_of_ne same, Side.other_other] at quiet
      have balanced := accounted.balanced side
      rw [quiet] at balanced
      have complete := completes.complete
      rw [Queue.result?, balanced.completed_eq_nil balanced.popped_eq_nil] at complete
      contradiction
  · intro _
    by_cases unreturned : NoIteration events
    · rcases accounted.unreturned unreturned with ⟨none_delivered, only⟩
      have balanced := accounted.balanced side.other
      have none_handled : machine.handled side.other = [] := by
        simp [handled, none_delivered]
      rw [none_handled] at balanced
      have starved := balanced.starved (only side.other) (later side.other)
      refine ⟨side.other, ?_⟩
      rw [completes.other, completes.opToken]
      exact starved.pop balanced (Nat.le_refl _) _
    · rcases accounted.starved unreturned with ⟨any, starved⟩
      refine ⟨any, ?_⟩
      rw [completes.opToken]
      by_cases same : any = side
      · subst same
        rw [completes.ready]
        exact (starved.drop (accounted.balanced any) completes.complete).pop balancedSelf
          (later any).le _
      · rw [Side.eq_other_of_ne same] at starved ⊢
        rw [completes.other]
        exact starved.pop (accounted.balanced _) (later _).le _

end Steps

section Runs

variable {thread : UInt16} {events : List (Event Endpoint)} {machine : Machine Endpoint}

theorem run_accounted (ran : run thread events = .ok machine) : Accounted events machine := by
  refine execute_invariant Accounted accounted_init ?_ ran
  intro events before event after _ accounted stepped
  cases event with
  | arrives side sga => exact accounted.arrives stepped
  | returns side => exact accounted.returns stepped

theorem tracks_pop {history : List (Delivery Endpoint)} (tracks : Tracks history machine.worker)
    (side : Side) : Tracks history (machine.pop side).worker := by
  cases side <;> exact ⟨tracks.res, tracks.endpoint, tracks.pushed⟩

theorem tracks_beginFrame {history : List (Delivery Endpoint)}
    (tracks : Tracks history machine.worker) : Tracks history machine.beginFrame.worker := by
  have reset : Tracks history
      ({ machine with worker := { machine.worker with io := machine.worker.io.resetTxLength } } :
        Machine Endpoint).worker := ⟨tracks.res, tracks.endpoint, tracks.pushed⟩
  exact tracks_pop (tracks_pop reset .client) .peer

theorem finish_tracks (tracks : Tracks machine.delivered machine.worker) (thread : UInt16)
    (side : Side) (sga : Sga Endpoint) :
    ∃ after, machine.finish thread side sga = .ok after ∧ Tracks after.delivered after.worker := by
  rcases tracks.deliver thread ⟨side, sga⟩ with ⟨worker, delivered, tracksAfter⟩
  refine ⟨_, by rw [finish, delivered], ?_⟩
  exact tracks_beginFrame tracksAfter

theorem run_tracks (ran : run thread events = .ok machine) :
    Tracks machine.delivered machine.worker := by
  refine execute_invariant (fun _ machine => Tracks machine.delivered machine.worker)
    (tracks_beginFrame tracks_init) ?_ ran
  intro events before event after _ tracks stepped
  cases event with
  | arrives side sga =>
      rcases step_arrives stepped with ⟨worker_eq, -, delivered_eq, -⟩
      rwa [worker_eq, delivered_eq]
  | returns side =>
      cases complete : (before.queues side).result? (before.opToken side) with
      | none => simp [step, complete] at stepped
      | some sga =>
          rcases finish_tracks tracks thread side sga with ⟨next, finished, tracksNext⟩
          simp only [step, complete, finished, Except.ok.injEq] at stepped
          exact stepped ▸ tracksNext

theorem run_error_eq {stop : Stop} (failed : run thread events = .error stop) :
    stop = .notReady := by
  rcases execute_error_iff.mp failed with ⟨before, event, rest, machine, rfl, ran, last⟩
  cases event with
  | arrives side sga => simp [step] at last
  | returns side =>
      cases complete : (machine.queues side).result? (machine.opToken side) with
      | none =>
          simp only [step, complete, Except.error.injEq] at last
          exact last.symm
      | some sga =>
          rcases finish_tracks (run_tracks ran) thread side sga with ⟨next, finished, -⟩
          simp [step, complete, finished] at last

/-- What the loop pushes, in terms of what has been delivered to it. -/
theorem run_pushed (ran : run thread events = .ok machine) :
    machine.worker.io.pushed.map Push.content = collect forward [] machine.delivered ↔
      RepeatsLastClient machine.delivered := by
  rw [(run_tracks ran).pushed]
  exact collect_echo_eq_iff machine.delivered

/-- A datagram is lost if its pop has an older token than the current one. -/
theorem Accounted.noDatagramLost_iff (accounted : Accounted events machine) :
    machine.NoDatagramLost ↔ ∀ side, ∀ completion ∈ (machine.queues side).completed,
      completion.1 = machine.opToken side := by
  constructor
  · intro noneLost side completion completion_mem
    have results := (accounted.balanced side).popped.symm.trans (noneLost side)
    have lengths := ((List.perm_append_left_iff _).mp results).length_eq
    rw [pending, List.length_map, List.length_map] at lengths
    have current := List.length_filter_eq_length_iff.mp lengths.symm completion completion_mem
    exact of_decide_eq_true current
  · intro current side
    have all_pending : (machine.queues side).completed.filter
        (fun completion => completion.1 = machine.opToken side) =
          (machine.queues side).completed := by
      apply List.filter_eq_self.mpr
      intro completion completion_mem
      exact decide_eq_true (current side completion completion_mem)
    rw [pending, all_pending]
    exact (accounted.balanced side).popped

theorem completed_of_tokens {side : Side}
    (only : (machine.queues side).tokens = [machine.opToken side]) :
    ∀ completion ∈ (machine.queues side).completed, completion.1 = machine.opToken side := by
  intro completion completion_mem
  have token_mem : completion.1 ∈ (machine.queues side).tokens :=
    List.mem_append_right _ (List.mem_map_of_mem completion_mem)
  rw [only] at token_mem
  exact List.mem_singleton.mp token_mem

theorem noDatagramLost_run_iff (ran : run thread events = .ok machine) :
    machine.NoDatagramLost ↔ NoIteration events ∨ ArriveOnOneQueue events := by
  have accounted := run_accounted ran
  rw [accounted.noDatagramLost_iff]
  constructor
  · intro current
    by_cases unreturned : NoIteration events
    · exact Or.inl unreturned
    · right
      rcases accounted.starved unreturned with ⟨side, starved⟩
      rcases starved with ⟨token, sga, lost, older⟩ | ⟨none_popped, token, rest, waits, -⟩
      · exact absurd (current side (token, sga) lost) (Nat.ne_of_lt older)
      · have balanced := accounted.balanced side
        have none_arrived := balanced.arrived_eq_nil waits
        have quiet : arrivals side events = [] := by
          rw [balanced.total, none_popped, none_arrived]
          rfl
        refine ⟨side.other, ?_⟩
        intro on sga arrives
        apply Side.eq_other_of_ne
        rintro rfl
        have sga_mem := mem_arrivals.mpr arrives
        rw [quiet] at sga_mem
        contradiction
  · rintro (unreturned | ⟨busy, oneQueue⟩) side
    · exact completed_of_tokens ((accounted.unreturned unreturned).2 side)
    · have quiet : arrivals busy.other events = [] := by
        apply List.eq_nil_iff_forall_not_mem.mpr
        intro sga sga_mem
        exact busy.other_ne (oneQueue _ sga (mem_arrivals.mp sga_mem))
      by_cases same : side = busy
      · subst same
        exact completed_of_tokens (accounted.quiet side quiet)
      · have balanced := accounted.balanced side
        rw [Side.eq_other_of_ne same, quiet] at balanced
        rw [Side.eq_other_of_ne same, balanced.completed_eq_nil balanced.popped_eq_nil]
        intro completion completion_mem
        contradiction

theorem noTokenDiscarded_run_iff (ran : run thread events = .ok machine) :
    machine.NoTokenDiscarded ↔ NoIteration events := by
  have accounted := run_accounted ran
  constructor
  · intro known
    by_contra returned
    rcases accounted.starved returned with ⟨side, starved⟩
    rcases starved with ⟨token, sga, lost, older⟩ | ⟨-, token, rest, waits, older⟩
    · have token_mem : token ∈ (machine.queues side).tokens :=
        List.mem_append_right _ (List.mem_map_of_mem lost)
      exact absurd (known side token token_mem) (Nat.ne_of_lt older)
    · have token_mem : token ∈ (machine.queues side).tokens := by
        simp [Queue.tokens, waits]
      exact absurd (known side token token_mem) (Nat.ne_of_lt older)
  · intro unreturned side token token_mem
    rw [(accounted.unreturned unreturned).2 side] at token_mem
    exact List.mem_singleton.mp token_mem

/-- In a run no datagram is lost if and only if no iteration is completed or all datagrams
arrive on one queue, and no token is discarded if and only if no iteration is completed. -/
theorem delivery_iff (ran : run thread events = .ok machine) :
    ((∀ before rest earlier, events = before ++ rest → run thread before = .ok earlier →
        earlier.NoDatagramLost) ↔ NoIteration events ∨ ArriveOnOneQueue events) ∧
      ((∀ before rest earlier, events = before ++ rest → run thread before = .ok earlier →
        earlier.NoTokenDiscarded) ↔ NoIteration events) := by
  have unreturnedBefore {before rest : List (Event Endpoint)} (split_eq : events = before ++ rest)
      (unreturned : NoIteration events) : NoIteration before := by
    intro side side_mem
    exact unreturned side (split_eq ▸ List.mem_append_left _ side_mem)
  refine ⟨⟨?_, ?_⟩, ⟨?_, ?_⟩⟩
  · intro noneLost
    exact (noDatagramLost_run_iff ran).mp
      (noneLost events [] machine (List.append_nil _).symm ran)
  · intro harmless before rest earlier split_eq ranBefore
    apply (noDatagramLost_run_iff ranBefore).mpr
    rcases harmless with unreturned | ⟨busy, oneQueue⟩
    · exact Or.inl (unreturnedBefore split_eq unreturned)
    · right
      refine ⟨busy, ?_⟩
      intro on sga arrives
      exact oneQueue on sga (split_eq ▸ List.mem_append_left _ arrives)
  · intro noneDiscarded
    exact (noTokenDiscarded_run_iff ran).mp
      (noneDiscarded events [] machine (List.append_nil _).symm ran)
  · intro unreturned before rest earlier split_eq ranBefore
    exact (noTokenDiscarded_run_iff ranBefore).mpr (unreturnedBefore split_eq unreturned)

/-- A client registers and answers arrive for it, the first of which is taken by the pop
whose token has been discarded. -/
def mixedArrivals : List (Event ℕ) :=
  [.arrives .client ⟨7, [1, 0, 0, 0, 0, 0, 0, 0]⟩, .returns .client,
    .arrives .peer ⟨9, [1, 0, 0, 0, 0, 0, 0, 0, 42]⟩,
    .arrives .peer ⟨9, [1, 0, 0, 0, 0, 0, 0, 0, 43]⟩, .returns .peer]

theorem delivery_iff_of_mixedArrivals :
    ∃ machine, run 0 mixedArrivals = .ok machine ∧
      (((∀ before rest earlier, mixedArrivals = before ++ rest → run 0 before = .ok earlier →
          earlier.NoDatagramLost) ↔ NoIteration mixedArrivals ∨ ArriveOnOneQueue mixedArrivals) ∧
        ((∀ before rest earlier, mixedArrivals = before ++ rest → run 0 before = .ok earlier →
          earlier.NoTokenDiscarded) ↔ NoIteration mixedArrivals)) := by
  have succeeds : succeedsWith (run 0 mixedArrivals) (fun _ => true) = true := by
    decide +kernel
  rcases exists_of_succeedsWith succeeds with ⟨machine, ran, -⟩
  exact ⟨machine, ran, delivery_iff ran⟩

/-- The first answer has been taken by a pop, and it cannot be obtained. -/
theorem lost_of_mixedArrivals :
    ∃ machine, run 0 mixedArrivals = .ok machine ∧
      (machine.queues .peer).popped =
        [⟨9, [1, 0, 0, 0, 0, 0, 0, 0, 42]⟩, ⟨9, [1, 0, 0, 0, 0, 0, 0, 0, 43]⟩] ∧
      machine.handled .peer = [⟨9, [1, 0, 0, 0, 0, 0, 0, 0, 43]⟩] ∧
      machine.pending .peer = [] ∧ ¬machine.NoDatagramLost ∧ ¬machine.NoTokenDiscarded := by
  have succeeds : succeedsWith (run 0 mixedArrivals) (fun machine =>
      (machine.queues .peer).popped =
        [⟨9, [1, 0, 0, 0, 0, 0, 0, 0, 42]⟩, ⟨9, [1, 0, 0, 0, 0, 0, 0, 0, 43]⟩] ∧
      machine.handled .peer = [⟨9, [1, 0, 0, 0, 0, 0, 0, 0, 43]⟩] ∧
      machine.pending .peer = [] ∧ 1 ∈ (machine.queues .peer).tokens ∧
      machine.opToken .peer = 5) = true := by
    decide +kernel
  rcases exists_of_succeedsWith succeeds with ⟨machine, ran, test⟩
  rcases of_decide_eq_true test with ⟨popped, handled, pending, discarded, current⟩
  refine ⟨machine, ran, popped, handled, pending, ?_, ?_⟩
  · intro noneLost
    have lengths := (noneLost .peer).length_eq
    rw [popped, handled, pending] at lengths
    contradiction
  · intro noneDiscarded
    have same := noneDiscarded .peer 1 discarded
    rw [current] at same
    contradiction

end Runs

end Machine

end Urn.Demi
