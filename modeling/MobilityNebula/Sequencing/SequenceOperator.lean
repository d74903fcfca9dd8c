import MobilityNebula.Library.TransitionSystem
import MobilityNebula.Sequencing.Sequencer

/-!
# SequenceOperator — buffers of several origins through one sequencer

A worker that processes a buffer asks the handler for the next buffer.  If its own buffer is not the next one,
it leaves it in the queue and is done; otherwise it scans the buffer, marks it as done, and goes on with the
buffers that were waiting.  The handler keeps the buffer that is being scanned in one member, and its methods
are the locked sections of the sequencer.

With one origin every buffer is scanned once, in order.  Sequence numbers of different origins collide, and
then the buffer that comes second stays in the queue: `delivers_everything_iff` says that everything is
delivered exactly if at most one origin delivers buffers.
-/

namespace MobilityNebula.Sequencing

open Library List

/-! ## The system -/

/-- Origin `o` delivers the sequence numbers 1, …, `numberOfBuffers o`, each with all its chunks. -/
structure OriginInput where
  origins : List Nat
  numberOfBuffers : Nat → Nat
  numberOfChunks : Nat → Nat → Nat
  numberOfChunks_pos : ∀ o s, 0 < numberOfChunks o s

namespace OriginInput

variable (input : OriginInput)

structure IsBuffer (b : BufferId) : Prop where
  origin : b.originId ∈ input.origins
  sequenceNumber : 1 ≤ b.sequenceNumber
  sequenceNumber_le : b.sequenceNumber ≤ input.numberOfBuffers b.originId
  chunkNumber : 1 ≤ b.chunkNumber
  chunkNumber_le : b.chunkNumber ≤ input.numberOfChunks b.originId b.sequenceNumber

def data (b : BufferId) : SequenceData :=
  ⟨b.sequenceNumber, b.chunkNumber, b.chunkNumber == input.numberOfChunks b.originId b.sequenceNumber⟩

def SingleOrigin : Prop :=
  ∀ o ∈ input.origins, ∀ o' ∈ input.origins, 0 < input.numberOfBuffers o → 0 < input.numberOfBuffers o' → o = o'

end OriginInput

structure SequenceSystem where
  sequencer : Sequencer BufferId
  /-- The member of the handler; it is empty until the first buffer. -/
  currentBuffer : Option BufferId
  arrived : List BufferId
  /-- The workers that hold a pointer to the current buffer and have not scanned it. -/
  opening : Nat
  /-- The workers that have scanned the current buffer and not marked it as done. -/
  scanning : Nat
  /-- The buffers that were passed to the scan, the latest first. -/
  scanned : List BufferId

inductive SequenceEvent where
  | getNextBuffer (b : BufferId)
  | scan
  | markBufferAsDone
  deriving DecidableEq, Repr

namespace SequenceSystem

variable (input : OriginInput)

def initial : SequenceSystem := ⟨Sequencer.create, none, [], 0, 0, []⟩

variable (state : SequenceSystem)

def Enabled : SequenceEvent → Prop
  | .getNextBuffer b => input.IsBuffer b ∧ b ∉ state.arrived
  | .scan => 0 < state.opening
  | .markBufferAsDone => 0 < state.scanning

/-- A worker has got the next buffer, or there is none. -/
def receive (sequencer : Sequencer BufferId) : Option BufferId → SequenceSystem
  | some buffer =>
    { state with sequencer := sequencer, currentBuffer := some buffer, opening := state.opening + 1 }
  | none => { state with sequencer := sequencer }

/-- The state after an event, or nothing if the precondition of `advanceAndGetNext` fails. -/
def step : SequenceEvent → Option SequenceSystem
  | .getNextBuffer b =>
    let (sequencer, next) := state.sequencer.isNext (input.data b) b
    some (receive { state with arrived := b :: state.arrived } sequencer next)
  | .scan => do
    let buffer ← state.currentBuffer
    some { state with
      opening := state.opening - 1
      scanning := state.scanning + 1
      scanned := buffer :: state.scanned }
  | .markBufferAsDone => do
    let buffer ← state.currentBuffer
    let (sequencer, next) ← state.sequencer.advanceAndGetNext (input.data buffer)
    some (receive { state with scanning := state.scanning - 1 } sequencer next)

def IsReachable : Prop := Reachable initial (Enabled input) (step input) state

structure Final (state : SequenceSystem) : Prop where
  arrived : ∀ b, input.IsBuffer b → b ∈ state.arrived
  opening : state.opening = 0
  scanning : state.scanning = 0

def position (b : BufferId) : Nat × Nat := (b.sequenceNumber, b.chunkNumber)

/-- Every buffer was scanned once, those of one origin in order, and nothing waits. -/
structure Delivered (state : SequenceSystem) : Prop where
  nodup : state.scanned.Nodup
  mem_iff : ∀ b, b ∈ state.scanned ↔ input.IsBuffer b
  ordered : state.scanned.Pairwise fun later earlier =>
    later.originId = earlier.originId → Precedes (position earlier) (position later)
  queue : state.sequencer.queue = []

end SequenceSystem

/-- In every interleaving no precondition fails, the work can be completed, and then everything was
delivered. -/
structure DeliversEverything (input : OriginInput) : Prop where
  noAbort : ∀ state, SequenceSystem.IsReachable input state → ∀ event, state.Enabled input event →
    ∃ state', state.step input event = some state'
  completes : ∀ state, SequenceSystem.IsReachable input state →
    ∃ state', Reachable state (SequenceSystem.Enabled input) (SequenceSystem.step input) state' ∧
      state'.Final input
  delivered : ∀ state, SequenceSystem.IsReachable input state → state.Final input → state.Delivered input

/-! ## Completion -/

namespace OriginInput

variable (input : OriginInput)

def buffers : List BufferId :=
  input.origins.flatMap fun o => (range' 1 (input.numberOfBuffers o)).flatMap fun s =>
    (range' 1 (input.numberOfChunks o s)).map fun c => ⟨o, s, c⟩

lemma mem_buffers {b : BufferId} : b ∈ input.buffers ↔ input.IsBuffer b := by
  rcases b with ⟨o, s, c⟩
  simp only [buffers, mem_flatMap, mem_map, mem_range'_1, BufferId.mk.injEq]
  constructor
  · rintro ⟨o', ho, s', hs, c', hc, rfl, rfl, rfl⟩
    refine ⟨ho, hs.1, ?_, hc.1, ?_⟩
    · show s' ≤ input.numberOfBuffers o'
      omega
    · show c' ≤ input.numberOfChunks o' s'
      omega
  · rintro ⟨ho, hs, hle, hc, hle'⟩
    simp only at ho hs hle hc hle'
    exact ⟨o, ho, s, ⟨hs, by omega⟩, c, ⟨hc, by omega⟩, rfl, rfl, rfl⟩

end OriginInput

namespace SequenceSystem

variable {input : OriginInput}

/-- What an event does when it does not abort. -/
inductive Effect (input : OriginInput) (state : SequenceSystem) : SequenceEvent → SequenceSystem → Prop where
  | next {b : BufferId} (hnext : position b = state.sequencer.next) :
      Effect input state (.getNextBuffer b)
        { state with arrived := b :: state.arrived, currentBuffer := some b, opening := state.opening + 1 }
  | queued {b : BufferId} (hnext : position b ≠ state.sequencer.next) :
      Effect input state (.getNextBuffer b)
        { state with
          arrived := b :: state.arrived
          sequencer := { state.sequencer with queue := pushQueue (input.data b, b) state.sequencer.queue } }
  | scan {b : BufferId} (hcurrent : state.currentBuffer = some b) :
      Effect input state .scan
        { state with
          opening := state.opening - 1
          scanning := state.scanning + 1
          scanned := b :: state.scanned }
  | idle {b : BufferId} (hcurrent : state.currentBuffer = some b) (hnext : position b = state.sequencer.next)
      (hqueue : ∀ top rest, state.sequencer.queue = top :: rest → top.1.position ≠ (input.data b).successor) :
      Effect input state .markBufferAsDone
        { state with
          scanning := state.scanning - 1
          sequencer := state.sequencer.moveTo (input.data b).successor }
  | resume {b : BufferId} {top : SequenceData × BufferId} {rest : List (SequenceData × BufferId)}
      (hcurrent : state.currentBuffer = some b) (hnext : position b = state.sequencer.next)
      (hqueue : state.sequencer.queue = top :: rest) (htop : top.1.position = (input.data b).successor) :
      Effect input state .markBufferAsDone
        { state with
          scanning := state.scanning - 1
          opening := state.opening + 1
          currentBuffer := some top.2
          sequencer := { state.sequencer.moveTo (input.data b).successor with queue := rest } }

lemma exists_effect_getNextBuffer (input : OriginInput) (state : SequenceSystem) (b : BufferId) :
    ∃ state', state.step input (.getNextBuffer b) = some state' ∧ Effect input state (.getNextBuffer b) state' := by
  by_cases heq : (input.data b).position = state.sequencer.next
  · refine ⟨_, ?_, .next heq⟩
    rw [step, Sequencer.isNext_of_eq heq]
    rfl
  · refine ⟨_, ?_, .queued heq⟩
    rw [step, Sequencer.isNext_of_ne heq]
    rfl

variable {state : SequenceSystem} {b : BufferId}

lemma exists_effect_markBufferAsDone (input : OriginInput)
    (hcurrent : state.currentBuffer = some b) (hnext : position b = state.sequencer.next) :
    ∃ state', state.step input .markBufferAsDone = some state' ∧ Effect input state .markBufferAsDone state' := by
  have hadvance := Sequencer.advanceAndGetNext_of_eq (show (input.data b).position = state.sequencer.next from hnext)
  rcases Sequencer.popNext_cases (state.sequencer.moveTo (input.data b).successor) with
    ⟨hpop, hqueue⟩ | ⟨top, rest, hqueue, htop, hpop⟩
  · refine ⟨_, ?_, .idle hcurrent hnext hqueue⟩
    simp only [step, hcurrent, hadvance, hpop, Option.bind_eq_bind, Option.bind_some]
    rfl
  · refine ⟨_, ?_, .resume hcurrent hnext hqueue htop⟩
    simp only [step, hcurrent, hadvance, hpop, Option.bind_eq_bind, Option.bind_some]
    rfl

variable {state' : SequenceSystem} {event : SequenceEvent}

lemma effect_of_step (hstep : state.step input event = some state') : Effect input state event state' := by
  cases event with
  | getNextBuffer b =>
    rcases exists_effect_getNextBuffer input state b with ⟨state'', hstep', heffect⟩
    exact Option.some_inj.1 (hstep'.symm.trans hstep) ▸ heffect
  | scan =>
    cases hcurrent : state.currentBuffer with
    | none => simp [step, hcurrent] at hstep
    | some b =>
      have hstep' : state.step input .scan = some { state with
          opening := state.opening - 1
          scanning := state.scanning + 1
          scanned := b :: state.scanned } := by
        rw [step, hcurrent]
        rfl
      exact Option.some_inj.1 (hstep'.symm.trans hstep) ▸ .scan hcurrent
  | markBufferAsDone =>
    cases hcurrent : state.currentBuffer with
    | none => simp [step, hcurrent] at hstep
    | some b =>
      by_cases hnext : position b = state.sequencer.next
      · rcases exists_effect_markBufferAsDone input hcurrent hnext with ⟨state'', hstep', heffect⟩
        exact Option.some_inj.1 (hstep'.symm.trans hstep) ▸ heffect
      · have hadvance := Sequencer.advanceAndGetNext_of_ne
          (show (input.data b).position ≠ state.sequencer.next from hnext)
        simp [step, hcurrent, hadvance] at hstep

/-- The buffers that arrived are distinct buffers of the input. -/
structure ArrivedInvariant (input : OriginInput) (state : SequenceSystem) : Prop where
  nodup : state.arrived.Nodup
  buffers : ∀ b ∈ state.arrived, input.IsBuffer b

namespace ArrivedInvariant

variable {state state' : SequenceSystem}

lemma cons (inv : ArrivedInvariant input state) (hb : input.IsBuffer b) (hnew : b ∉ state.arrived)
    (harrived : state'.arrived = b :: state.arrived) : ArrivedInvariant input state' := by
  refine ⟨?_, ?_⟩
  · rw [harrived]
    exact nodup_cons.2 ⟨hnew, inv.nodup⟩
  · rw [harrived]
    exact forall_mem_cons.2 ⟨hb, inv.buffers⟩

lemma step (inv : ArrivedInvariant input state) {event : SequenceEvent} (henabled : state.Enabled input event)
    (heffect : Effect input state event state') : ArrivedInvariant input state' := by
  cases heffect with
  | next hnext | queued hnext => exact inv.cons henabled.1 henabled.2 rfl
  | scan hcurrent | idle hcurrent hnext hqueue | resume hcurrent hnext hqueue htop => exact ⟨inv.nodup, inv.buffers⟩

lemma of_isReachable (h : IsReachable input state) : ArrivedInvariant input state := by
  refine Reachable.invariant (ArrivedInvariant input) ⟨nodup_nil, by simp [initial]⟩ ?_ h
  intro s event s' inv henabled hstep
  exact inv.step henabled (effect_of_step hstep)

lemma length_lt (inv : ArrivedInvariant input state) (hb : input.IsBuffer b)
    (hnew : b ∉ state.arrived) : state.arrived.length < input.buffers.length := by
  refine List.Subperm.length_le (List.Nodup.subperm (nodup_cons.2 ⟨hnew, inv.nodup⟩) ?_)
  intro b' hb'
  rcases mem_cons.1 hb' with rfl | hb'
  · exact input.mem_buffers.2 hb
  · exact input.mem_buffers.2 (inv.buffers b' hb')

end ArrivedInvariant

/-- How many locked sections and scans are still to come, at most. -/
def remaining (input : OriginInput) (state : SequenceSystem) : Nat :=
  4 * (input.buffers.length - state.arrived.length) + 3 * state.sequencer.queue.length + 2 * state.opening
    + state.scanning

lemma remaining_lt (inv : ArrivedInvariant input state)
    (henabled : state.Enabled input event) (heffect : Effect input state event state') :
    state'.remaining input < state.remaining input := by
  cases heffect with
  | next hnext =>
    have hlt := inv.length_lt henabled.1 henabled.2
    simp only [remaining, length_cons]
    omega
  | queued hnext =>
    have hlt := inv.length_lt henabled.1 henabled.2
    simp only [remaining, length_cons, length_pushQueue]
    omega
  | scan hcurrent =>
    have hopening : 0 < state.opening := henabled
    simp only [remaining]
    omega
  | idle hcurrent hnext hqueue =>
    have hscanning : 0 < state.scanning := henabled
    simp only [remaining, Sequencer.moveTo]
    omega
  | resume hcurrent hnext hqueue htop =>
    simp only [remaining, hqueue, length_cons]
    omega

/-- If no precondition fails, then the work can be completed from every reachable state. -/
lemma exists_final (hnoAbort : ∀ state, IsReachable input state → ∀ event, state.Enabled input event →
      ∃ state', state.step input event = some state') (hreachable : IsReachable input state) :
    ∃ state', Reachable state (Enabled input) (step input) state' ∧ state'.Final input := by
  rcases Reachable.exists_final (remaining input) state (fun t ht event henabled => by
      have ht' : IsReachable input t := hreachable.trans ht
      rcases hnoAbort t ht' event henabled with ⟨t', hstep⟩
      exact ⟨t', hstep, remaining_lt (.of_isReachable ht') henabled (effect_of_step hstep)⟩) with
    ⟨state', hstate', hnone⟩
  refine ⟨state', hstate', ?_, Nat.eq_zero_of_not_pos (hnone .scan), Nat.eq_zero_of_not_pos (hnone .markBufferAsDone)⟩
  intro b hb
  by_contra hnew
  exact hnone (.getNextBuffer b) ⟨hb, hnew⟩

/-! ## One origin -/

lemma precedes_irrefl (p : Nat × Nat) : ¬ Precedes p p := by
  simp only [Precedes]
  omega

lemma not_precedes_iff {p q : Nat × Nat} : ¬ Precedes p q ↔ q = p ∨ Precedes q p := by
  rcases p with ⟨s, c⟩
  rcases q with ⟨s', c'⟩
  simp only [Precedes, Prod.mk.injEq]
  omega

section SingleOrigin

variable {b b' : BufferId}
variable (hsingle : input.SingleOrigin) (hb : input.IsBuffer b) (hb' : input.IsBuffer b')
include hsingle hb hb'

lemma same_origin : b.originId = b'.originId :=
  hsingle _ hb.origin _ hb'.origin (lt_of_lt_of_le hb.sequenceNumber hb.sequenceNumber_le)
    (lt_of_lt_of_le hb'.sequenceNumber hb'.sequenceNumber_le)

lemma eq_of_position (hposition : position b = position b') : b = b' := by
  have horigin := same_origin hsingle hb hb'
  rcases b with ⟨o, s, c⟩
  rcases Prod.mk.inj hposition with ⟨hs, hc⟩
  simp only at horigin hs hc
  rw [horigin, hs, hc]

lemma precedes_successor_iff : Precedes (position b') (input.data b).successor ↔
      Precedes (position b') (position b) ∨ position b' = position b := by
  have horigin := same_origin hsingle hb hb'
  have hchunk := hb'.chunkNumber
  have hle := hb.chunkNumber_le
  have hle' := hb'.chunkNumber_le
  rcases b with ⟨o, s, c⟩
  rcases b' with ⟨o', s', c'⟩
  simp only at horigin hchunk hle hle'
  subst horigin
  simp only [OriginInput.data, SequenceData.successor, Precedes, position, Prod.mk.injEq, beq_iff_eq]
  split_ifs with hlast
  · simp only
    constructor
    · intro h
      rcases Nat.lt_trichotomy s' s with hlt | rfl | hgt
      · exact .inl (.inl hlt)
      · omega
      · omega
    · omega
  · simp only
    omega

lemma exists_successor (hbehind : ¬ Precedes (position b') (input.data b).successor) :
    ∃ b'', input.IsBuffer b'' ∧ position b'' = (input.data b).successor := by
  have horigin := same_origin hsingle hb hb'
  by_cases hlast : b.chunkNumber = input.numberOfChunks b.originId b.sequenceNumber
  · have hsuccessor : (input.data b).successor = (b.sequenceNumber + 1, 1) := by
      simp [OriginInput.data, SequenceData.successor, hlast]
    rw [hsuccessor] at hbehind ⊢
    refine ⟨⟨b.originId, b.sequenceNumber + 1, 1⟩, ⟨hb.origin, ?_, ?_, ?_, ?_⟩, rfl⟩
    · exact Nat.le_add_left 1 _
    · have hle := hb'.sequenceNumber_le
      rw [← horigin] at hle
      simp only [Precedes, position] at hbehind
      show b.sequenceNumber + 1 ≤ input.numberOfBuffers b.originId
      omega
    · exact le_refl 1
    · exact input.numberOfChunks_pos _ _
  · have hsuccessor : (input.data b).successor = (b.sequenceNumber, b.chunkNumber + 1) := by
      simp [OriginInput.data, SequenceData.successor, hlast]
    rw [hsuccessor]
    refine ⟨⟨b.originId, b.sequenceNumber, b.chunkNumber + 1⟩,
      ⟨hb.origin, hb.sequenceNumber, hb.sequenceNumber_le, ?_, ?_⟩, rfl⟩
    · exact Nat.le_add_left 1 _
    · exact lt_of_le_of_ne hb.chunkNumber_le hlast

end SingleOrigin

/-- The state of the system with one origin. -/
structure DeliveryInvariant (input : OriginInput) (state : SequenceSystem) : Prop where
  arrived : ArrivedInvariant input state
  reach : ∀ b, input.IsBuffer b → ¬ Precedes (position b) state.sequencer.next →
    ∃ b', input.IsBuffer b' ∧ position b' = state.sequencer.next
  before : ∀ b, input.IsBuffer b → Precedes (position b) state.sequencer.next → b ∈ state.arrived
  queue_data : ∀ e ∈ state.sequencer.queue, e.1 = input.data e.2
  queue_sorted : state.sequencer.queue.Pairwise fun a b => Precedes a.1.position b.1.position
  queue_iff : ∀ b, (input.data b, b) ∈ state.sequencer.queue ↔
    b ∈ state.arrived ∧ Precedes state.sequencer.next (position b)
  single : state.opening + state.scanning ≤ 1
  current : 0 < state.opening + state.scanning →
    ∃ b ∈ state.arrived, state.currentBuffer = some b ∧ position b = state.sequencer.next
  idle : state.opening + state.scanning = 0 → ∀ b ∈ state.arrived, position b ≠ state.sequencer.next
  scanned_iff : ∀ b, b ∈ state.scanned ↔ b ∈ state.arrived ∧
    (Precedes (position b) state.sequencer.next ∨ 0 < state.scanning ∧ position b = state.sequencer.next)
  scanned_sorted : state.scanned.Pairwise fun later earlier => Precedes (position earlier) (position later)

namespace DeliveryInvariant

variable {state state' : SequenceSystem}

lemma initial (input : OriginInput) : DeliveryInvariant input SequenceSystem.initial := by
  refine ⟨⟨nodup_nil, by simp [SequenceSystem.initial]⟩, ?_, ?_, by simp [SequenceSystem.initial, Sequencer.create],
    .nil, by simp [SequenceSystem.initial, Sequencer.create], Nat.zero_le 1,
    fun h => absurd h (Nat.lt_irrefl 0), by simp [SequenceSystem.initial], by simp [SequenceSystem.initial],
    .nil⟩
  · intro b hb _
    exact ⟨⟨b.originId, 1, 1⟩, ⟨hb.origin, le_refl 1, hb.sequenceNumber.trans hb.sequenceNumber_le, le_refl 1,
      input.numberOfChunks_pos _ _⟩, rfl⟩
  · intro b hb hprecedes
    have hs := hb.sequenceNumber
    have hc := hb.chunkNumber
    simp only [Precedes, position, SequenceSystem.initial, Sequencer.create, Sequencer.next] at hprecedes
    omega

section

variable (inv : DeliveryInvariant input state)
include inv

variable {b : BufferId}

lemma scanned_iff_cons (hnotbefore : ¬ Precedes (position b) state.sequencer.next)
    (hnot : ¬ (0 < state.scanning ∧ position b = state.sequencer.next)) (b' : BufferId) :
    b' ∈ state.scanned ↔ b' ∈ b :: state.arrived ∧
      (Precedes (position b') state.sequencer.next ∨ 0 < state.scanning ∧ position b' = state.sequencer.next) := by
  rw [inv.scanned_iff]
  refine and_congr_left fun hscanned => ?_
  have hne : b' ≠ b := fun heq => not_or.2 ⟨hnotbefore, hnot⟩ (heq ▸ hscanned)
  rw [mem_cons, or_iff_right hne]

lemma next (hsingle : input.SingleOrigin)
    (hb : input.IsBuffer b) (hnew : b ∉ state.arrived) (hnext : position b = state.sequencer.next) :
    DeliveryInvariant input
      { state with arrived := b :: state.arrived, currentBuffer := some b, opening := state.opening + 1 } := by
  -- nobody works on another buffer: it would have the same position
  have hfree : state.opening + state.scanning = 0 := by
    by_contra hbusy
    rcases inv.current (Nat.pos_of_ne_zero hbusy) with ⟨b', hb', _, hposition⟩
    have heq := eq_of_position hsingle hb (inv.arrived.buffers b' hb') (hnext.trans hposition.symm)
    exact hnew (heq ▸ hb')
  have hnotbehind : ¬ Precedes state.sequencer.next (position b) := hnext ▸ precedes_irrefl _
  refine
    { inv with
      arrived := inv.arrived.cons hb hnew rfl
      before := fun b' hb' h => mem_cons_of_mem _ (inv.before b' hb' h)
      queue_iff := fun b' => (inv.queue_iff b').trans (and_congr_left fun h => ?_)
      single := ?_
      current := fun _ => ⟨b, mem_cons_self, rfl, hnext⟩
      idle := fun h => absurd h (by simp)
      scanned_iff := inv.scanned_iff_cons (hnext ▸ precedes_irrefl _) (by omega) }
  · have hne : b' ≠ b := fun heq => hnotbehind (heq ▸ h)
    rw [mem_cons, or_iff_right hne]
  · show state.opening + 1 + state.scanning ≤ 1
    omega

lemma queue_isBuffer {e : SequenceData × BufferId} (he : e ∈ state.sequencer.queue) :
    e.2 ∈ state.arrived ∧ e.1.position = position e.2 ∧ Precedes state.sequencer.next (position e.2) := by
  have hdata := inv.queue_data e he
  have hmem : (input.data e.2, e.2) ∈ state.sequencer.queue := by
    rw [← hdata]
    exact he
  rcases (inv.queue_iff e.2).1 hmem with ⟨harrived, hprecedes⟩
  refine ⟨harrived, ?_, hprecedes⟩
  rw [hdata]
  rfl

lemma queued (hsingle : input.SingleOrigin)
    (hb : input.IsBuffer b) (hnew : b ∉ state.arrived) (hnext : position b ≠ state.sequencer.next) :
    DeliveryInvariant input
      { state with
        arrived := b :: state.arrived
        sequencer := { state.sequencer with queue := pushQueue (input.data b, b) state.sequencer.queue } } := by
  -- everything before the next position has arrived, so the buffer is behind it
  have hnotbefore : ¬ Precedes (position b) state.sequencer.next := fun h => hnew (inv.before b hb h)
  have hbehind : Precedes state.sequencer.next (position b) := (not_precedes_iff.1 hnotbefore).resolve_left hnext.symm
  refine
    { inv with
      arrived := inv.arrived.cons hb hnew rfl
      before := fun b' hb' h => mem_cons_of_mem _ (inv.before b' hb' h)
      queue_data := ?_
      queue_sorted := ?_
      queue_iff := ?_
      current := ?_
      idle := ?_
      scanned_iff := inv.scanned_iff_cons hnotbefore fun h => hnext h.2 }
  · intro e he
    rcases mem_pushQueue.1 he with rfl | he
    · rfl
    · exact inv.queue_data e he
  · refine sorted_pushQueue inv.queue_sorted fun e he heq => ?_
    rcases inv.queue_isBuffer he with ⟨harrived, hdata, _⟩
    have hsame := eq_of_position hsingle hb (inv.arrived.buffers _ harrived) (heq.trans hdata)
    exact hnew (hsame ▸ harrived)
  · intro b'
    have hiff := inv.queue_iff b'
    rw [mem_pushQueue, hiff, Prod.mk.injEq]
    constructor
    · rintro (⟨_, rfl⟩ | ⟨hmem, hprecedes⟩)
      · exact ⟨mem_cons_self, hbehind⟩
      · exact ⟨mem_cons_of_mem _ hmem, hprecedes⟩
    · rintro ⟨hmem, hprecedes⟩
      rcases mem_cons.1 hmem with rfl | hmem
      · exact .inl ⟨rfl, rfl⟩
      · exact .inr ⟨hmem, hprecedes⟩
  · intro hbusy
    rcases inv.current hbusy with ⟨b', hb', hcurrent, hposition⟩
    exact ⟨b', mem_cons_of_mem _ hb', hcurrent, hposition⟩
  · intro hfree
    exact forall_mem_cons.2 ⟨hnext, inv.idle hfree⟩

/-- The member of the handler is the buffer at the next position, while a worker is busy with it. -/
lemma current_spec (hbusy : 0 < state.opening + state.scanning) (hcurrent : state.currentBuffer = some b) :
    b ∈ state.arrived ∧ position b = state.sequencer.next := by
  rcases inv.current hbusy with ⟨b', hb', hcurrent', hposition⟩
  have heq : b' = b := Option.some_inj.1 (hcurrent'.symm.trans hcurrent)
  exact heq ▸ ⟨hb', hposition⟩

lemma scan (hsingle : input.SingleOrigin) (hopening : 0 < state.opening) (hcurrent : state.currentBuffer = some b) :
    DeliveryInvariant input
      { state with
        opening := state.opening - 1
        scanning := state.scanning + 1
        scanned := b :: state.scanned } := by
  have hone := inv.single
  rcases inv.current_spec (by omega) hcurrent with ⟨hb, hposition⟩
  have hscanned : ∀ b' ∈ state.scanned, Precedes (position b') state.sequencer.next := by
    intro b' hb'
    rcases ((inv.scanned_iff b').1 hb').2 with hprecedes | ⟨hscanning, _⟩
    · exact hprecedes
    · exact absurd hscanning (by omega)
  refine
    { inv with
      arrived := ⟨inv.arrived.nodup, inv.arrived.buffers⟩
      single := ?_
      current := fun _ => ⟨b, hb, hcurrent, hposition⟩
      idle := nofun
      scanned_iff := ?_
      scanned_sorted := ?_ }
  · show state.opening - 1 + (state.scanning + 1) ≤ 1
    omega
  · intro b'
    rw [mem_cons, inv.scanned_iff]
    constructor
    · rintro (rfl | ⟨hmem, hcases⟩)
      · exact ⟨hb, .inr ⟨Nat.succ_pos _, hposition⟩⟩
      · exact ⟨hmem, hcases.imp_right fun h => ⟨Nat.succ_pos _, h.2⟩⟩
    · rintro ⟨hmem, hprecedes | ⟨_, hnext⟩⟩
      · exact .inr ⟨hmem, .inl hprecedes⟩
      · exact .inl (eq_of_position hsingle (inv.arrived.buffers b' hmem) (inv.arrived.buffers b hb)
          (hnext.trans hposition.symm))
  · refine pairwise_cons.2 ⟨fun b' hb' => ?_, inv.scanned_sorted⟩
    rw [hposition]
    exact hscanned b' hb'

/-! ## Moving to the next position -/

lemma scanned_current (hscanning : 0 < state.scanning) (hcurrent : state.currentBuffer = some b) :
    b ∈ state.arrived ∧ position b = state.sequencer.next ∧ state.opening = 0 ∧ state.scanning = 1 := by
  have hone := inv.single
  rcases inv.current_spec (by omega) hcurrent with ⟨hb, hposition⟩
  exact ⟨hb, hposition, by omega, by omega⟩

variable (hsingle : input.SingleOrigin)
include hsingle

lemma precedes_next_iff {b' : BufferId}
    (hb : b ∈ state.arrived) (hposition : position b = state.sequencer.next) (hb' : input.IsBuffer b') :
    Precedes state.sequencer.next (position b') ↔
      position b' = (input.data b).successor ∨ Precedes (input.data b).successor (position b') := by
  have hiff := precedes_successor_iff hsingle (inv.arrived.buffers b hb) hb'
  rw [hposition] at hiff
  calc Precedes state.sequencer.next (position b')
      ↔ ¬ (position b' = state.sequencer.next ∨ Precedes (position b') state.sequencer.next) := by
        rw [← not_precedes_iff, not_not]
    _ ↔ ¬ Precedes (position b') (input.data b).successor := by rw [hiff, or_comm]
    _ ↔ _ := by rw [not_precedes_iff, eq_comm]

/-- What does not depend on whether the next buffer was waiting. -/
lemma scanned_iff_advanced
    (hb : b ∈ state.arrived) (hposition : position b = state.sequencer.next) (hscanning : state.scanning = 1)
    (b' : BufferId) :
    b' ∈ state.scanned ↔ b' ∈ state.arrived ∧ (Precedes (position b') (input.data b).successor ∨
        0 < state.scanning - 1 ∧ position b' = (input.data b).successor) := by
  have hnone : ¬ 0 < state.scanning - 1 := by omega
  rw [inv.scanned_iff]
  refine and_congr_right fun hb' => ?_
  have hiff := precedes_successor_iff hsingle (inv.arrived.buffers b hb) (inv.arrived.buffers b' hb')
  rw [hposition] at hiff
  rw [hiff]
  constructor
  · rintro (h | ⟨_, h⟩)
    · exact .inl (.inl h)
    · exact .inl (.inr h)
  · rintro ((h | h) | ⟨h, _⟩)
    · exact .inl h
    · exact .inr ⟨by omega, h⟩
    · exact absurd h hnone

lemma before_advanced (hb : b ∈ state.arrived) (hposition : position b = state.sequencer.next) {b' : BufferId}
    (hb' : input.IsBuffer b') (hprecedes : Precedes (position b') (input.data b).successor) : b' ∈ state.arrived := by
  rcases (precedes_successor_iff hsingle (inv.arrived.buffers b hb) hb').1 hprecedes with h | h
  · rw [hposition] at h
    exact inv.before b' hb' h
  · rw [eq_of_position hsingle hb' (inv.arrived.buffers b hb) h]
    exact hb

lemma idle_advanced (hscanning : 0 < state.scanning) (hcurrent : state.currentBuffer = some b)
    (hqueue : ∀ top rest, state.sequencer.queue = top :: rest → top.1.position ≠ (input.data b).successor) :
    DeliveryInvariant input
      { state with
        scanning := state.scanning - 1
        sequencer := state.sequencer.moveTo (input.data b).successor } := by
  rcases inv.scanned_current hscanning hcurrent with ⟨hb, hposition, hopening, hone⟩
  -- a buffer at the next position would be the top of the queue
  have hmissing : ∀ b' ∈ state.arrived, position b' ≠ (input.data b).successor := by
    intro b' hb' heq
    have hbuffer' := inv.arrived.buffers b' hb'
    have hmem := (inv.queue_iff b').2 ⟨hb', (inv.precedes_next_iff hsingle hb hposition hbuffer').2 (.inl heq)⟩
    cases htop : state.sequencer.queue with
    | nil =>
      rw [htop] at hmem
      cases hmem
    | cons top rest =>
      have htopmem : top ∈ state.sequencer.queue := by
        rw [htop]
        exact mem_cons_self
      rcases inv.queue_isBuffer htopmem with ⟨harrived, hdata, hprecedes⟩
      have hsorted := inv.queue_sorted
      rw [htop] at hmem hsorted
      rcases mem_cons.1 hmem with hsame | hmem
      · refine hqueue top rest htop ?_
        rw [← hsame]
        exact heq
      · have hbefore := (pairwise_cons.1 hsorted).1 _ hmem
        rw [hdata] at hbefore
        have hbefore' : Precedes (position top.2) (input.data b).successor := heq ▸ hbefore
        rcases (inv.precedes_next_iff hsingle hb hposition (inv.arrived.buffers _ harrived)).1 hprecedes with h | h
        · rw [h] at hbefore'
          exact precedes_irrefl _ hbefore'
        · exact precedes_irrefl _ (h.trans hbefore')
  refine
    { inv with
      arrived := ⟨inv.arrived.nodup, inv.arrived.buffers⟩
      reach := fun b' hb' h => exists_successor hsingle (inv.arrived.buffers b hb) hb' h
      before := fun b' hb' h => inv.before_advanced hsingle hb hposition hb' h
      queue_iff := ?_
      single := ?_
      current := fun h => absurd h (by show ¬ 0 < state.opening + (state.scanning - 1); omega)
      idle := fun _ => hmissing
      scanned_iff := inv.scanned_iff_advanced hsingle hb hposition hone }
  · intro b'
    refine (inv.queue_iff b').trans (and_congr_right fun hb' => ?_)
    rw [inv.precedes_next_iff hsingle hb hposition (inv.arrived.buffers b' hb')]
    exact or_iff_right (hmissing b' hb')
  · show state.opening + (state.scanning - 1) ≤ 1
    omega

lemma resume_advanced (hscanning : 0 < state.scanning) {top : SequenceData × BufferId}
    {rest : List (SequenceData × BufferId)} (hcurrent : state.currentBuffer = some b)
    (hqueue : state.sequencer.queue = top :: rest) (htop : top.1.position = (input.data b).successor) :
    DeliveryInvariant input
      { state with
        scanning := state.scanning - 1
        opening := state.opening + 1
        currentBuffer := some top.2
        sequencer := { state.sequencer.moveTo (input.data b).successor with queue := rest } } := by
  rcases inv.scanned_current hscanning hcurrent with ⟨hb, hposition, hopening, hone⟩
  have hsub : ∀ e ∈ rest, e ∈ state.sequencer.queue := by
    intro e he
    rw [hqueue]
    exact mem_cons_of_mem _ he
  have htopmem : top ∈ state.sequencer.queue := by
    rw [hqueue]
    exact mem_cons_self
  rcases inv.queue_isBuffer htopmem with ⟨harrived, hdata, _⟩
  have hsorted := inv.queue_sorted
  rw [hqueue] at hsorted
  rcases pairwise_cons.1 hsorted with ⟨hfirst, hsorted'⟩
  refine
    { arrived := ⟨inv.arrived.nodup, inv.arrived.buffers⟩
      reach := fun b' hb' h => exists_successor hsingle (inv.arrived.buffers b hb) hb' h
      before := fun b' hb' h => inv.before_advanced hsingle hb hposition hb' h
      queue_data := fun e he => inv.queue_data e (hsub e he)
      queue_sorted := hsorted'
      queue_iff := ?_
      single := ?_
      current := fun _ => ⟨top.2, harrived, rfl, hdata.symm.trans htop⟩
      idle := fun h => absurd h (by show state.opening + 1 + (state.scanning - 1) ≠ 0; omega)
      scanned_iff := inv.scanned_iff_advanced hsingle hb hposition hone
      scanned_sorted := inv.scanned_sorted }
  · intro b'
    constructor
    · intro hmem
      rcases (inv.queue_iff b').1 (hsub _ hmem) with ⟨hb', _⟩
      have hbehind := hfirst _ hmem
      rw [htop] at hbehind
      exact ⟨hb', hbehind⟩
    · rintro ⟨hb', hprecedes⟩
      have hmem := (inv.queue_iff b').2 ⟨hb',
        (inv.precedes_next_iff hsingle hb hposition (inv.arrived.buffers b' hb')).2 (.inr hprecedes)⟩
      rw [hqueue] at hmem
      rcases mem_cons.1 hmem with hsame | hmem
      · have heq : position b' = (input.data b).successor := by
          rw [← htop, ← hsame]
          rfl
        have hprecedes' : Precedes (input.data b).successor (position b') := hprecedes
        rw [heq] at hprecedes'
        exact absurd hprecedes' (precedes_irrefl _)
      · exact hmem
  · show state.opening + 1 + (state.scanning - 1) ≤ 1
    omega

lemma step {event : SequenceEvent} (henabled : state.Enabled input event) (heffect : Effect input state event state') :
    DeliveryInvariant input state' := by
  cases heffect with
  | next hnext => exact inv.next hsingle henabled.1 henabled.2 hnext
  | queued hnext => exact inv.queued hsingle henabled.1 henabled.2 hnext
  | scan hcurrent => exact inv.scan hsingle henabled hcurrent
  | idle hcurrent hnext hqueue => exact inv.idle_advanced hsingle henabled hcurrent hqueue
  | resume hcurrent hnext hqueue htop => exact inv.resume_advanced hsingle henabled hcurrent hqueue htop

end

lemma of_isReachable (hsingle : input.SingleOrigin) (h : IsReachable input state) : DeliveryInvariant input state := by
  refine Reachable.invariant (DeliveryInvariant input) (initial input) ?_ h
  intro s event s' inv henabled hstep
  exact inv.step hsingle henabled (effect_of_step hstep)

lemma noAbort (inv : DeliveryInvariant input state) {event : SequenceEvent}
    (henabled : state.Enabled input event) : ∃ state', state.step input event = some state' := by
  cases event with
  | getNextBuffer b => exact ⟨_, rfl⟩
  | scan =>
    have hopening : 0 < state.opening := henabled
    rcases inv.current (by omega) with ⟨b, _, hcurrent, _⟩
    have hsome : (state.step input .scan).isSome = true := by
      rw [SequenceSystem.step, hcurrent]
      rfl
    exact Option.isSome_iff_exists.1 hsome
  | markBufferAsDone =>
    have hscanning : 0 < state.scanning := henabled
    rcases inv.current (by omega) with ⟨b, _, hcurrent, hposition⟩
    rcases exists_effect_markBufferAsDone input hcurrent hposition with ⟨state', hstep, _⟩
    exact ⟨state', hstep⟩

lemma delivered (inv : DeliveryInvariant input state) (hfinal : state.Final input) : state.Delivered input := by
  have hopening := hfinal.opening
  have hscanning := hfinal.scanning
  -- nothing is missing at the next position, so no buffer is behind it
  have hall : ∀ b, input.IsBuffer b → Precedes (position b) state.sequencer.next := by
    intro b hb
    by_contra hbehind
    rcases inv.reach b hb hbehind with ⟨b', hb', hposition⟩
    exact inv.idle (by omega) b' (hfinal.arrived b' hb') hposition
  refine ⟨?_, ?_, inv.scanned_sorted.imp (fun h => fun _ => h), ?_⟩
  · refine inv.scanned_sorted.imp fun {later earlier} h heq => ?_
    rw [heq] at h
    exact precedes_irrefl _ h
  · intro b
    rw [inv.scanned_iff]
    exact ⟨fun h => inv.arrived.buffers b h.1, fun h => ⟨hfinal.arrived b h, .inl (hall b h)⟩⟩
  · cases hqueue : state.sequencer.queue with
    | nil => rfl
    | cons top rest =>
      have htop : top ∈ state.sequencer.queue := by
        rw [hqueue]
        exact mem_cons_self
      rcases inv.queue_isBuffer htop with ⟨harrived, _, hprecedes⟩
      exact absurd (hprecedes.trans (hall _ (inv.arrived.buffers _ harrived))) (precedes_irrefl _)

end DeliveryInvariant

/-! ## Two origins -/

/-- A buffer with the first position waits, and the sequencer is past that position. -/
structure Stuck (state : SequenceSystem) : Prop where
  waits : ∃ e ∈ state.sequencer.queue, e.1.position = (1, 1)
  passed : Precedes (1, 1) state.sequencer.next

lemma precedes_successor (data : SequenceData) : Precedes data.position data.successor := by
  unfold SequenceData.successor SequenceData.position Precedes
  split_ifs
  · exact .inl (Nat.lt_succ_self _)
  · exact .inr ⟨rfl, Nat.lt_succ_self _⟩

lemma Stuck.step (h : Stuck state) (heffect : Effect input state event state') : Stuck state' := by
  rcases h.waits with ⟨e, he, hposition⟩
  cases heffect with
  | next hnext => exact ⟨h.waits, h.passed⟩
  | queued hnext => exact ⟨⟨e, mem_pushQueue.2 (.inr he), hposition⟩, h.passed⟩
  | scan hcurrent => exact ⟨h.waits, h.passed⟩
  | @idle b hcurrent hnext hqueue =>
    have hadvance : Precedes state.sequencer.next (input.data b).successor := hnext ▸ precedes_successor (input.data b)
    exact ⟨⟨e, he, hposition⟩, h.passed.trans hadvance⟩
  | @resume b top rest hcurrent hnext hqueue htop =>
    have hadvance : Precedes state.sequencer.next (input.data b).successor := hnext ▸ precedes_successor (input.data b)
    refine ⟨⟨e, ?_, hposition⟩, h.passed.trans hadvance⟩
    rw [hqueue] at he
    rcases mem_cons.1 he with rfl | he
    · rw [← htop, hposition] at hadvance
      exact absurd (h.passed.trans hadvance) (precedes_irrefl _)
    · exact he

/-- A worker has scanned the first buffer of an origin and not marked it as done. -/
def firstScanned (o : Nat) : SequenceSystem :=
  ⟨Sequencer.create, some ⟨o, 1, 1⟩, [⟨o, 1, 1⟩], 0, 1, [⟨o, 1, 1⟩]⟩

lemma firstScanned_isReachable {o : Nat} (hb : input.IsBuffer ⟨o, 1, 1⟩) : IsReachable input (firstScanned o) := by
  have hfirst : IsReachable input ⟨.create, some ⟨o, 1, 1⟩, [⟨o, 1, 1⟩], 1, 0, []⟩ :=
    .step .initial (show Enabled input initial (.getNextBuffer ⟨o, 1, 1⟩) from ⟨hb, not_mem_nil⟩) rfl
  exact .step hfirst (show Enabled input _ .scan from Nat.one_pos) rfl

/-- The first buffer of one origin is processed, then the first buffer of another one arrives. -/
lemma exists_stuck {o o' : Nat} (hne : o ≠ o') (hb : input.IsBuffer ⟨o, 1, 1⟩) (hb' : input.IsBuffer ⟨o', 1, 1⟩) :
    ∃ state, IsReachable input state ∧ Stuck state := by
  have hcurrent : (firstScanned o).currentBuffer = some ⟨o, 1, 1⟩ := rfl
  rcases exists_effect_markBufferAsDone input hcurrent rfl with ⟨state₃, hstep₃, heffect₃⟩
  have h₃ : IsReachable input state₃ :=
    .step (firstScanned_isReachable hb) (show Enabled input _ .markBufferAsDone from Nat.one_pos) hstep₃
  cases heffect₃ with
  | @idle b hcurrent hnext hqueue =>
    have hfirst : (input.data b).position = (1, 1) := hnext
    have hpassed : Precedes (1, 1) (input.data b).successor := hfirst ▸ precedes_successor (input.data b)
    rcases exists_effect_getNextBuffer input _ ⟨o', 1, 1⟩ with ⟨state₄, hstep₄, heffect₄⟩
    have hnew : (⟨o', 1, 1⟩ : BufferId) ∉ [(⟨o, 1, 1⟩ : BufferId)] := by
      intro hmem
      exact hne (BufferId.mk.inj (mem_singleton.1 hmem)).1.symm
    refine ⟨state₄, .step h₃ (show Enabled input _ (.getNextBuffer ⟨o', 1, 1⟩) from ⟨hb', hnew⟩) hstep₄, ?_⟩
    cases heffect₄ with
    | next hnext' =>
      -- the sequencer is past the first position
      have heq : ((1, 1) : Nat × Nat) = (input.data b).successor := hnext'
      rw [← heq] at hpassed
      exact absurd hpassed (precedes_irrefl _)
    | queued _ => exact ⟨⟨_, mem_pushQueue.2 (.inl rfl), rfl⟩, hpassed⟩
  | resume hcurrent hnext hqueue htop => cases hqueue

end SequenceSystem

/-- Everything is delivered, in every interleaving, exactly if at most one origin delivers buffers. -/
theorem delivers_everything_iff (input : OriginInput) : DeliversEverything input ↔ input.SingleOrigin := by
  constructor
  · intro h o ho o' ho' hpos hpos'
    by_contra hne
    rcases SequenceSystem.exists_stuck hne
      (⟨ho, le_refl 1, hpos, le_refl 1, input.numberOfChunks_pos o 1⟩ : input.IsBuffer ⟨o, 1, 1⟩)
      (⟨ho', le_refl 1, hpos', le_refl 1, input.numberOfChunks_pos o' 1⟩ : input.IsBuffer ⟨o', 1, 1⟩) with
      ⟨state, hreachable, hstuck⟩
    rcases h.completes state hreachable with ⟨state', hreaches, hfinal⟩
    have hstuck' : state'.Stuck := by
      refine Reachable.invariant SequenceSystem.Stuck hstuck ?_ hreaches
      intro s event s' hs _ hstep
      exact hs.step (SequenceSystem.effect_of_step hstep)
    have hdelivered := h.delivered state' (hreachable.trans hreaches) hfinal
    rcases hstuck'.waits with ⟨e, he, _⟩
    rw [hdelivered.queue] at he
    cases he
  · intro hsingle
    have hnoAbort : ∀ state, SequenceSystem.IsReachable input state → ∀ event, state.Enabled input event →
        ∃ state', state.step input event = some state' := fun state hreachable event henabled =>
      (SequenceSystem.DeliveryInvariant.of_isReachable hsingle hreachable).noAbort henabled
    refine ⟨hnoAbort, fun state hreachable => SequenceSystem.exists_final hnoAbort hreachable, ?_⟩
    intro state hreachable hfinal
    exact (SequenceSystem.DeliveryInvariant.of_isReachable hsingle hreachable).delivered hfinal

def twoOrigins : OriginInput where
  origins := [1, 2]
  numberOfBuffers _ := 1
  numberOfChunks _ _ := 1
  numberOfChunks_pos _ _ := Nat.one_pos

/-- The buffer of the second origin arrives after that of the first one was processed: all buffers have
arrived, no worker is busy, and it was never scanned. -/
theorem second_origin_stays_in_queue : ∃ state, runFrom (SequenceSystem.step twoOrigins) SequenceSystem.initial
        [.getNextBuffer ⟨1, 1, 1⟩, .scan, .markBufferAsDone, .getNextBuffer ⟨2, 1, 1⟩] = some state ∧
      state.arrived = [⟨2, 1, 1⟩, ⟨1, 1, 1⟩] ∧ state.opening = 0 ∧ state.scanning = 0 ∧
      state.scanned = [⟨1, 1, 1⟩] ∧ state.sequencer.queue = [(⟨1, 1, true⟩, ⟨2, 1, 1⟩)] :=
  ⟨_, rfl, rfl, rfl, rfl, rfl, rfl⟩

end MobilityNebula.Sequencing
