import ProfileTrace.Proofs.Chunk.SinglePass
import ProfileTrace.Proofs.Session.Moves

/-! What a session gives for a source that may be slow and may fail. The fault of a source is
asked for only when all workers are done, but then the cursor has met it: a trace that is cut
short by a failure is never taken for a whole one. And from a source that does not fail, however
slowly it delivers, the workers get what they would get from its bytes in memory. -/

namespace ProfileTrace

/-- The fault that reading a trace to its end must report. -/
def Reader.verdict (reader : Reader) : Option Fault :=
  if reader.canTell then StreamCursor.faultOf reader else some .tellFailed

namespace Session
open StreamCursor (Lockstep)

/-! ### The fault of the source -/

namespace Crew
variable {options : Options} {reader : Reader}

theorem fault_run (delivers : ∀ turn, (reader.pace turn).most ≠ some 0)
    (inside : reader.start ≤ reader.content.length) (schedule : List Nat)
    (none : ((start options reader).run options schedule).feed.next.1 = none) :
    ((start options reader).run options schedule).feed.cursor.fault = reader.verdict := by
  cases tells : reader.canTell with
  | false =>
    have lost : ((start options reader).run options schedule).feed.cursor.Lost :=
      holds_run StreamCursor.enduring_lost (StreamCursor.lost_ofReader tells _ 0) schedule
    rw [lost.fault, Reader.verdict, tells]
    rfl
  | true =>
    have calm : reader.calmed.Faultless := ⟨rfl, tells, delivers⟩
    obtain ⟨warned, roomy⟩ :
        StreamCursor.Warned reader ((start options reader).run options schedule).feed.cursor ∧
          ((start options reader).run options schedule).feed.cursor.Roomy :=
      holds_run (StreamCursor.enduring_warned calm)
        ⟨StreamCursor.warned_ofReader calm inside _ 0, StreamCursor.roomy_ofReader reader _ 0⟩
        schedule
    obtain ⟨-, empty⟩ := Feed.of_next_eq_none none
    have shown := StreamCursor.unread_fetched_fillWindow
      ((start options reader).run options schedule).feed.cursor
    have nothing := List.prefix_nil.mp (empty ▸ shown)
    rw [warned.told (warned.last nothing), Reader.verdict, tells]
    rfl

theorem fault_of_finished (delivers : ∀ turn, (reader.pace turn).most ≠ some 0)
    (inside : reader.start ≤ reader.content.length) (uncapped : options.maxSamples = none)
    {schedule : List Nat} (done : ((start options reader).run options schedule).IsFinished) :
    ((start options reader).run options schedule).feed.cursor.fault = reader.verdict := by
  rcases isOver_of_finished done with none | full
  · exact fault_run delivers inside schedule none
  · simp [Options.isFull, uncapped] at full

end Crew

/-! ### Workers over traces that are handed out alike -/

structure Crew.Alongside (Abreast : StreamCursor → StreamCursor → Prop) (crew other : Crew) :
    Prop where
  feed : Feed.Alongside Abreast crew.feed other.feed
  shared : crew.shared = other.shared
  agents : crew.agents = other.agents

variable {Abreast : StreamCursor → StreamCursor → Prop} {options : Options}

theorem Scene.step_alongside (options : Options) (lockstep : Lockstep Abreast) {feed other : Feed}
    (alongside : Feed.Alongside Abreast feed other) (shared : Shared) (agent : Agent) :
    Feed.Alongside Abreast (step options ⟨feed, shared, agent⟩).feed
        (step options ⟨other, shared, agent⟩).feed ∧
      (step options ⟨feed, shared, agent⟩).shared = (step options ⟨other, shared, agent⟩).shared ∧
      (step options ⟨feed, shared, agent⟩).agent = (step options ⟨other, shared, agent⟩).agent := by
  obtain ⟨stage, output⟩ := agent
  cases stage with
  | idle =>
    obtain ⟨same, later⟩ := alongside.next lockstep
    rcases found : feed.next with ⟨_ | chunk, after⟩
    · rw [found] at same later
      have also : other.next = (none, other.next.2) := Prod.ext same.symm rfl
      rw [step_idle_none options feed output found, step_idle_none options other output also]
      exact ⟨later, rfl, rfl⟩
    · rw [found] at same later
      have also : other.next = (some chunk, other.next.2) := Prod.ext same.symm rfl
      rw [step_idle_some options feed output found, step_idle_some options other output also]
      exact ⟨later, rfl, rfl⟩
  | reading records =>
    cases records with
    | nil => exact ⟨alongside, rfl, rfl⟩
    | cons record records =>
      simp only [step, takeRecord]
      split
      · exact ⟨alongside, rfl, rfl⟩
      · split <;> exact ⟨alongside, rfl, rfl⟩
  | climbing time frames caller records => cases frames <;> exact ⟨alongside, rfl, rfl⟩
  | joining time frame frames caller records => exact ⟨alongside, rfl, rfl⟩
  | finished => exact ⟨alongside, rfl, rfl⟩

namespace Crew
variable {crew other : Crew}

theorem Alongside.step (options : Options) (lockstep : Lockstep Abreast)
    (alongside : Alongside Abreast crew other) (i : Nat) :
    Alongside Abreast (crew.step options i) (other.step options i) := by
  obtain ⟨feed, shared, agents⟩ := alongside
  unfold Crew.step
  rw [← agents, ← shared]
  split
  · exact ⟨feed, shared, agents⟩
  next agent found =>
    obtain ⟨feed, shared, agent⟩ := Scene.step_alongside options lockstep feed crew.shared agent
    exact ⟨feed, shared, congrArg (crew.agents.set i) agent⟩

theorem Alongside.run (options : Options) (lockstep : Lockstep Abreast)
    (alongside : Alongside Abreast crew other) (schedule : List Nat) :
    Alongside Abreast (crew.run options schedule) (other.run options schedule) := by
  induction schedule generalizing crew other with
  | nil => exact alongside
  | cons i schedule ih => exact ih (alongside.step options lockstep i)

theorem Alongside.gather (alongside : Alongside Abreast crew other) :
    Session.gather crew.pool = Session.gather other.pool := by
  simp only [Session.gather, pool, Pool.states, alongside.shared, alongside.agents]

theorem Alongside.isFinished (alongside : Alongside Abreast crew other) :
    crew.IsFinished ↔ other.IsFinished := by
  rw [IsFinished, IsFinished, alongside.agents]

theorem alongside_start {reader source : Reader}
    (feed : Feed.Alongside Abreast (Feed.ofReader reader options.windowLength)
      (Feed.ofReader source options.windowLength)) :
    Alongside Abreast (start options reader) (start options source) :=
  ⟨feed, rfl, rfl⟩

/-! ### One worker -/

theorem step_of_finished (done : crew.IsFinished) (i : Nat) : crew.step options i = crew := by
  unfold Crew.step
  split
  · rfl
  next agent found =>
    have stopped := done agent (List.mem_of_getElem? found)
    obtain ⟨stage, output⟩ := agent
    cases stage with
    | finished =>
      have same : crew.agents.set i ⟨.finished, output⟩ = crew.agents := by
        obtain ⟨inside, here⟩ := List.getElem?_eq_some_iff.mp found
        rw [← here, List.set_getElem_self]
      simp only [Scene.step, same]
    | _ => cases stopped

theorem run_of_finished (done : crew.IsFinished) (schedule : List Nat) :
    crew.run options schedule = crew := by
  induction schedule with
  | nil => rfl
  | cons i schedule ih => exact (congrArg (run options · schedule) (step_of_finished done i)).trans ih

theorem run_of_single (single : crew.agents.length = 1) (schedule : List Nat) :
    crew.run options schedule = crew.run options (List.replicate (schedule.count 0) 0) := by
  induction schedule generalizing crew with
  | nil => rfl
  | cons i schedule ih =>
    have later : (crew.step options i).run options schedule =
        (crew.step options i).run options (List.replicate (schedule.count 0) 0) :=
      ih (by rwa [length_agents_step])
    cases i with
    | zero =>
      rw [List.count_cons_self, List.replicate_succ]
      exact later
    | succ i =>
      have absent : crew.agents[i + 1]? = none := List.getElem?_eq_none (by omega)
      have same : crew.step options (i + 1) = crew := by simp only [Crew.step, absent]
      rw [List.count_cons_of_ne (Nat.succ_ne_zero i)]
      rw [same] at later
      exact (congrArg (run options · schedule) same).trans later

theorem run_eq_of_single (single : crew.agents.length = 1) {first second : List Nat}
    (done : (crew.run options first).IsFinished) (also : (crew.run options second).IsFinished) :
    crew.run options first = crew.run options second := by
  rw [run_of_single single first] at done ⊢
  rw [run_of_single single second] at also ⊢
  rcases Nat.le_total (first.count 0) (second.count 0) with le | le
  · obtain ⟨more, size⟩ := Nat.exists_eq_add_of_le le
    rw [size, List.replicate_add, run_append, run_of_finished done]
  · obtain ⟨more, size⟩ := Nat.exists_eq_add_of_le le
    rw [size, List.replicate_add, run_append, run_of_finished also]

theorem length_agents_start (options : Options) (reader : Reader) :
    (start options reader).agents.length = options.effectiveWorkers := List.length_replicate

theorem result_of_single (single : options.effectiveWorkers = 1) {reader : Reader}
    {schedule : List Nat} (done : ((start options reader).run options schedule).IsFinished) :
    ((start options reader).run options schedule).result = Session.read options reader := by
  obtain ⟨sequential, also, same⟩ := exists_run_read options reader
  have one := (length_agents_start options reader).trans single
  rw [← same, run_eq_of_single one done also]

end Crew

/-! ### The session -/

theorem chunks_and_gather_of_sound {reader : Reader}
    (delivers : ∀ turn, (reader.pace turn).most ≠ some 0) (start : reader.start = 0)
    (tells : reader.canTell = true) (sound : reader.fails = false) (options : Options) :
    (Feed.ofReader reader options.windowLength).chunks.1 =
        (Feed.ofReader (Reader.ofBytes reader.bytes) options.windowLength).chunks.1 ∧
      ∀ schedule,
        (((Crew.start options reader).run options schedule).IsFinished ↔
          ((Crew.start options (Reader.ofBytes reader.bytes)).run options schedule).IsFinished) ∧
        gather ((Crew.start options reader).run options schedule).pool =
          gather ((Crew.start options (Reader.ofBytes reader.bytes)).run options schedule).pool := by
  have calm : reader.calmed.Faultless := ⟨rfl, tells, delivers⟩
  have content : reader.calmed.content = (Reader.ofBytes reader.bytes).content :=
    Reader.deliverable_of_not_fails sound
  have failing := Feed.alongside_calmed tells options.windowLength
  have slow := Feed.alongside_ofReader calm (Reader.faultless_ofBytes reader.bytes) content start
    options.windowLength
  have lockstep := StreamCursor.lockstep_abreast reader.calmed.content
    (max options.windowLength leastCapacity)
  refine ⟨(failing.chunks StreamCursor.lockstep_mirrors).trans (slow.chunks lockstep), ?_⟩
  intro schedule
  have first := (Crew.alongside_start failing).run options StreamCursor.lockstep_mirrors schedule
  have second := (Crew.alongside_start slow).run options lockstep schedule
  exact ⟨first.isFinished.trans second.isFinished, first.gather.trans second.gather⟩

/-- A session never takes a part of a trace for the whole. Without a limit of samples every order
of the workers' steps can be gone on with to the end, and there the result is a fault when the
source cannot tell its place or fails. Otherwise the chunks are those of the same bytes in memory,
and the result is what the same steps give for these; with one worker there is just one result. -/
theorem faults_of_any_schedule {reader : Reader}
    (delivers : ∀ turn, (reader.pace turn).most ≠ some 0) (start : reader.start = 0)
    {options : Options} (uncapped : options.maxSamples = none) :
    (∀ schedule, ∃ more,
        ((Crew.start options reader).run options (schedule ++ more)).IsFinished) ∧
      (∃ schedule, ((Crew.start options reader).run options schedule).IsFinished ∧
        ((Crew.start options reader).run options schedule).result = read options reader) ∧
      (∀ schedule, ((Crew.start options reader).run options schedule).IsFinished →
        (reader.canTell = false →
          ((Crew.start options reader).run options schedule).result = .error .tellFailed) ∧
        (reader.canTell = true → reader.fails = true →
          ((Crew.start options reader).run options schedule).result = .error .readFailed) ∧
        (reader.canTell = true → reader.fails = false → ∃ source,
          ((Crew.start options reader).run options schedule).result = .ok source ∧
          ((Crew.start options (Reader.ofBytes reader.bytes)).run options schedule).IsFinished ∧
          ((Crew.start options (Reader.ofBytes reader.bytes)).run options schedule).result =
            .ok source)) ∧
      (reader.canTell = true → reader.fails = false →
        (Feed.ofReader reader options.windowLength).chunks.1 =
          (Feed.ofReader (Reader.ofBytes reader.bytes) options.windowLength).chunks.1 ∧
        (options.effectiveWorkers = 1 →
          ∀ schedule, ((Crew.start options reader).run options schedule).IsFinished →
            ((Crew.start options reader).run options schedule).result =
              read options (Reader.ofBytes reader.bytes))) := by
  have inside : reader.start ≤ reader.content.length := start ▸ Nat.zero_le _
  have sound : reader.canTell = true → reader.fails = false → ∀ schedule,
      ((Crew.start options reader).run options schedule).IsFinished → ∃ source,
        ((Crew.start options reader).run options schedule).result = .ok source ∧
        ((Crew.start options (Reader.ofBytes reader.bytes)).run options schedule).IsFinished ∧
        ((Crew.start options (Reader.ofBytes reader.bytes)).run options schedule).result =
          .ok source := by
    intro tells whole schedule done
    obtain ⟨-, runs⟩ := chunks_and_gather_of_sound delivers start tells whole options
    obtain ⟨also, same⟩ := runs schedule
    have fault := Crew.fault_of_finished delivers inside uncapped done
    have none : ((Crew.start options (Reader.ofBytes reader.bytes)).run options
        schedule).feed.cursor.fault = (Reader.ofBytes reader.bytes).verdict :=
      Crew.fault_of_finished (Reader.faultless_ofBytes reader.bytes).delivers (Nat.zero_le _)
        uncapped (also.mp done)
    rw [Reader.verdict, if_pos tells, StreamCursor.faultOf, whole] at fault
    refine ⟨gather ((Crew.start options reader).run options schedule).pool, ?_, also.mp done, ?_⟩
    · rw [Crew.result, fault]
      rfl
    · rw [Crew.result, none, same]
      rfl
  refine ⟨Crew.exists_run_on options _, Crew.exists_run_read options reader, ?_, ?_⟩
  · intro schedule done
    have fault := Crew.fault_of_finished delivers inside uncapped done
    refine ⟨?_, ?_, fun tells whole => sound tells whole schedule done⟩
    · intro silent
      rw [Crew.result, fault, Reader.verdict, silent]
      rfl
    · intro tells fails
      rw [Crew.result, fault, Reader.verdict, tells, StreamCursor.faultOf, fails]
      rfl
  · intro tells whole
    refine ⟨(chunks_and_gather_of_sound delivers start tells whole options).1, ?_⟩
    intro single schedule done
    obtain ⟨source, here, also, there⟩ := sound tells whole schedule done
    rw [here, ← there, Crew.result_of_single single also]

/-- A source that brings a byte at a time, is interrupted, and cannot seek. -/
def faltering : Reader where
  bytes := ⟨relayText.toArray⟩
  pace turn := { interruptions := turn % 3, most := some 1 }
  canSeek := false

theorem faults_of_faltering :
    (∀ turn, (faltering.pace turn).most ≠ some 0) ∧ faltering.start = 0 ∧
      ({ workers := 1 } : Options).maxSamples = none ∧
      read { workers := 1 } faltering = read { workers := 1 } (Reader.ofBytes faltering.bytes) ∧
      read { workers := 1 } { faltering with failsFrom := some 600 } = .error .readFailed := by
  have delivers : ∀ turn, (faltering.pace turn).most ≠ some 0 := by
    intro turn none
    simp [faltering] at none
  have uncapped : ({ workers := 1 } : Options).maxSamples = none := rfl
  refine ⟨delivers, rfl, uncapped, ?_, ?_⟩
  · obtain ⟨-, ⟨schedule, done, same⟩, -, sound⟩ := faults_of_any_schedule delivers rfl uncapped
    exact same.symm.trans ((sound rfl rfl).2 rfl schedule done)
  · have also : ∀ turn,
        (Reader.pace { faltering with failsFrom := some 600 } turn).most ≠ some 0 := delivers
    obtain ⟨-, ⟨schedule, done, same⟩, every, -⟩ := faults_of_any_schedule also rfl uncapped
    have fails : Reader.fails { faltering with failsFrom := some 600 } = true := by decide +kernel
    exact same.symm.trans ((every schedule done).2.1 rfl fails)

end Session

end ProfileTrace
