import Urn.Libuv.Consistency

/-!
# Who owns a buffer

Between frames every buffer of a libuv thread is in one of two states: it is in
the pool once and no send refers to it, or it is outside and its `ref_count` is
the positive number of sends in flight that refer to it.  So no buffer is
released twice and none is lost, and `alloc` hands out no buffer that a send
still reads.
-/

namespace Urn.Libuv

open Relay Execution

variable {Endpoint : Type} {haveMmsg : Bool} {thread : UInt16} {relay : State UInt16 Endpoint}
  {events : List (Event Endpoint)} {world : World Endpoint}

/-- The two states of a buffer between frames. -/
def Io.Owned (io : Io Endpoint) (pooled : List BufPtr) (b : BufPtr) : Prop :=
  (b ∈ pooled ∧ references io.inFlight b = 0) ∨
    (b ∉ pooled ∧ 0 < references io.inFlight b ∧
      (io.bufs b).refCount = references io.inFlight b)

/-- The ownership of the buffers after the events. -/
structure Ownership (haveMmsg : Bool) (thread : UInt16) (relay : State UInt16 Endpoint)
    (events : List (Event Endpoint)) (world : World Endpoint) : Prop where
  pool : ∃ pooled, world.io.ioBufs.pool.Holds world.io.next pooled ∧ pooled.Nodup ∧
    (∀ b ∈ pooled, b < world.io.created) ∧
    (world.frame = none → ∀ b < world.io.created, world.io.Owned pooled b)
  requests : ∀ request ∈ world.io.inFlight,
    request.buf < world.io.created ∧ request.packet.buf = request.buf
  alloc : world.frame = none → ∀ request ∈ world.io.inFlight,
    request.packet.buf ≠ world.io.alloc.1
  created : ∃ before earlier, before <+: events ∧
    execute (step haveMmsg thread) (World.initial relay) before = .ok earlier ∧
    world.io.created ≤ earlier.io.inFlight.length + 1

theorem sound_of_execute
    (ran : execute (step haveMmsg thread) (World.initial relay) events = .ok world) :
    world.Sound haveMmsg := by
  refine execute_invariant (fun _ world => world.Sound haveMmsg)
    (World.Sound.initial haveMmsg relay) ?_ ran
  intro _ _ _ _ _ sound processed
  exact (sound.step processed).1

/-- A buffer is only created when every other one has a send in flight. -/
theorem created_of_execute
    (ran : execute (step haveMmsg thread) (World.initial relay) events = .ok world) :
    ∃ before earlier, before <+: events ∧
      execute (step haveMmsg thread) (World.initial relay) before = .ok earlier ∧
      world.io.created ≤ earlier.io.inFlight.length + 1 := by
  refine execute_invariant (fun events (world : World Endpoint) =>
      ∃ before earlier, before <+: events ∧
        execute (step haveMmsg thread) (World.initial relay) before = .ok earlier ∧
        world.io.created ≤ earlier.io.inFlight.length + 1) ?_ ?_ ran
  · exact ⟨[], World.initial relay, List.prefix_rfl, rfl, Nat.zero_le _⟩
  · rintro events world event after ranBefore ⟨before, earlier, isPrefix, ranEarlier, few⟩ processed
    have created := ((sound_of_execute ranBefore).step processed).2
    rcases le_max_iff.mp created with none | one
    · exact ⟨before, earlier, isPrefix.trans (List.prefix_append _ _), ranEarlier, none.trans few⟩
    · exact ⟨events, world, List.prefix_append _ _, ranBefore, one⟩

/-- Whatever frames arrive and in whatever order sends complete, every buffer is
owned by the pool or by the sends in flight, and by one of them only. -/
theorem ownership
    (ran : execute (step haveMmsg thread) (World.initial relay) events = .ok world) :
    Ownership haveMmsg thread relay events world := by
  rcases (sound_of_execute ran).consistent with ⟨pooled, consistent⟩
  refine ⟨⟨pooled, consistent.holds, consistent.holds.nodup, consistent.created, ?_⟩, ?_, ?_,
    created_of_execute ran⟩
  · intro between b old
    by_cases inPool : b ∈ pooled
    · exact Or.inl ⟨inPool, consistent.unused b inPool⟩
    · exact Or.inr ⟨inPool, consistent.used b old inPool (by simp [between]),
        consistent.counted b old inPool⟩
  · intro request request_mem
    have intact := consistent.intact request request_mem
    exact ⟨intact.created, intact.base⟩
  · intro between request request_mem
    rw [between] at consistent
    rcases consistent.alloc with ⟨_, _, _, unreferenced, _⟩
    rw [(consistent.intact request request_mem).base]
    exact buf_ne_of_references unreferenced request_mem

/-- A client registers, two chunks from the peer are forwarded from one buffer, and
one of the two sends completes. -/
def twoChunks : List (Event ℕ) :=
  [.receive .client (.chunks [⟨7, [1, 0, 0, 0, 0, 0, 0, 0]⟩]), .deliver, .deliver,
    .receive .peer (.chunks
      [⟨9, [1, 0, 0, 0, 0, 0, 0, 0, 42]⟩, ⟨9, [1, 0, 0, 0, 0, 0, 0, 0, 43]⟩]),
    .deliver, .deliver, .deliver, .complete 0 0]

theorem ownership_of_twoChunks :
    ∃ world : World ℕ, execute (step true 0) (World.initial .initial) twoChunks = .ok world ∧
      (world.io.created = 1 ∧ (world.io.bufs 0).refCount = 1) ∧
      Ownership true 0 .initial twoChunks world := by
  have ended : succeedsWith (execute (step true 0) (World.initial .initial) twoChunks)
      (fun world => world.io.created = 1 ∧ (world.io.bufs 0).refCount = 1) = true := by
    decide +kernel
  rcases exists_of_succeedsWith ended with ⟨world, ran, test⟩
  exact ⟨world, ran, of_decide_eq_true test, ownership ran⟩

end Urn.Libuv
