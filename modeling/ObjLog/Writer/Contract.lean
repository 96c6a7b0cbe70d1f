import ObjLog.Writer.Runs
/-!
# What a writer promises

The pipeline of a writer that is not terminal, the barrier of `Flush` and
`Close`, and what `Append` has done when it returns: in every reachable state,
whatever the goroutines did meanwhile.
-/

namespace ObjLog.Writer

open Lib Catformat Pmeta

/-! ## A writer with room for one segment of one record -/

namespace Sample

def opts : Options where
  session := some ⟨true, false⟩
  sinkFactory := true
  segmentOptions := .zero
  roll := ⟨1, 0, 0⟩
  queue := ⟨1, 0⟩
  timeouts := ⟨0, 0⟩

def identity : WriterIdentity := ⟨1, .zero 16⟩

def snapshot : Snapshot := ⟨{ PartitionHead.zero with writerEpoch := 1 }, identity⟩

def config : Config where
  cpus := 1
  opts := { opts with
    segmentOptions := { Segwriter.defaultOptions 1 0 with partition := 0 }
    roll := normalizeRoll opts.roll
    queue := normalizeQueue opts.queue
    timeouts := normalizeTimeouts opts.timeouts }
  streamID := ""
  partition := 0
  identity := identity

theorem new_config : new 1 opts snapshot = .ok (config, initialState snapshot 2) := rfl

theorem length_ones : (List.replicate 16 (1 : UInt8)).length = 16 := rfl

def uuid : Arr 16 := ⟨List.replicate 16 1, length_ones⟩

/-- The head after the segment. -/
def publish (req : PublishRequest) : Snapshot :=
  ⟨{ snapshot.head with
      nextLSN := req.segment.nextLSN
      segmentCount := req.expectedNextLSN + 1
      reachableSegmentCount := req.expectedNextLSN + 1
      lastSegment := req.segment
      hasLastSegment := true }, identity⟩

/-- Everything succeeds, but the catalog has another writer when retention is asked for. -/
def answer : (e : Call) → e.Answer
  | .newUUID => .ok uuid
  | .random => .ok uuid
  | .now => 0
  | .ctxErr => none
  | .newSegmentSink _ => .ok true
  | .segwriterAppend => ⟨none, .served, .served, .served, none⟩
  | .segwriterClose => ⟨none, .served, none, .ok (some ⟨1, 64⟩), none, .ok ⟨⟨"segment", 100⟩, 0, 0⟩, none⟩
  | .segwriterAbort => none
  | .publishSegment req => .ok (publish req)
  | .applyPendingRetention => .error (.bare (.writer .staleWriter))
  | .reconcilePendingRetention => .error (.bare (.writer .staleWriter))

theorem answers (e : Call) : Answers e (answer e) := by
  cases e with
  | segwriterAppend => exact ⟨nofun, trivial, trivial, trivial, nofun⟩
  | ctxErr => exact nofun
  | _ => trivial

def record (value : UInt8) : Record := ⟨0, [], [value]⟩

/-- The goroutine runs the job as far as it comes. -/
def runs (g : Goroutine) (j : Job) : List (Goroutine × Jobs.Event Job) := (g, .start j) :: List.replicate 24 (g, .go)

def goes (g : Goroutine) : List (Goroutine × Jobs.Event Job) := List.replicate 24 (g, .go)

def played (events : List (Goroutine × Jobs.Event Job)) : Threads :=
  config.jobs.play answer ⟨⟨none, initialState snapshot 2⟩, fun _ => .idle⟩ events

theorem reaches (events : List (Goroutine × Jobs.Event Job)) : Reaches config (played events) :=
  Jobs.Reaches.play answers (.start ⟨1, opts, snapshot, new_config⟩) events

def appended : Threads := played (runs .foreground (.append (record 7)))

/-- One record, cut when it is accepted, finalized and published during a `Flush`. -/
def flushed : Threads :=
  played (runs .foreground (.append (record 7)) ++ (runs .foreground .flush ++ (runs .finalize .finalize ++
    (runs .publish .publish ++ goes .foreground))))

/-- The cut after the second record waits for capacity when the writer becomes terminal. -/
def given : Threads :=
  played (runs .foreground (.append (record 7)) ++ (runs .foreground (.append (record 8)) ++
    (runs (.retention 0) .applyPendingRetention ++ goes .foreground)))

theorem reaches_appended : Reaches config appended := reaches _

theorem reaches_given : Reaches config given := reaches _

/-- The record of an `Append` that has returned an LSN, and what it left. -/
def accepted : Thread State Ctx Err Call Call.Answer Job.Reply → Option (UInt64 × State)
  | .returned (.append _) _ (.ok lsn) left => some (lsn, left)
  | _ => none

/-- The snapshot of a `Flush` that has returned one. -/
def barrier : Thread State Ctx Err Call Call.Answer Job.Reply → Option Snapshot
  | .returned .flush _ (.ok snapshot) _ => some snapshot
  | _ => none

theorem outcomes : ((accepted (given.threads .foreground)).elim false (fun r => r.1 == 1 && r.2.pieces.isEmpty) &&
      (accepted (appended.threads .foreground)).isSome && (barrier (flushed.threads .foreground)).isSome &&
      !flushed.world.shared.aborted) = true := by
  decide +kernel

end Sample

/-! ## The pipeline -/

/-- What an `Append` that has returned did: with an LSN it has accepted the record, which is in the pipeline
unless the writer has become terminal and given the record's segment up; with an error it has accepted nothing. -/
theorem append_all_or_nothing {c : Config} {σ : Threads} {record : Record} {began left : State} {reply : Except Err UInt64}
    (h : Reaches c σ) (hret : σ.threads .foreground = .returned (.append record) began reply left) :
    (∀ lsn, reply = .ok lsn → lsn = began.optimisticNextLSN ∧
      left.optimisticNextLSN.toNat = began.optimisticNextLSN.toNat + 1 ∧
      left.accepted = began.accepted ++ [record.at lsn] ∧
      (left.aborted = false → ∃ piece ∈ left.pieces, record.at lsn ∈ piece.records) ∧
      (left.aborted = true → ∃ sw ∈ left.abandoned, record.at lsn ∈ sw.records)) ∧
    (∀ e, reply = .error e → left.accepted = began.accepted ∧ left.optimisticNextLSN = began.optimisticNextLSN ∧
      left.hasTimestamp = began.hasTimestamp ∧ left.lastTimestamp = began.lastTimestamp ∧
      (ContextErr e ∨ e.is (.writer .segmentStartFailed) = true ∨ e.is (.writer .recordExceedsInflightBudget) = true →
        (left.terminatedBy = some .foreground → began.terminatedBy = some .foreground) ∧
        σ.world.shared.optimisticNextLSN = began.optimisticNextLSN)) := by
  have hthread := h.ok.2 .foreground
  rw [hret] at hthread
  obtain ⟨hrests, happends, -⟩ := hthread
  refine ⟨?_, ?_⟩
  · rintro lsn rfl
    have htook : Took record began.toPipeline left.toPipeline lsn := happends
    refine ⟨htook.lsn_eq, ?_, htook.accepted, fun hrun => ?_, fun haborted => ?_⟩
    · rw [htook.next]
      exact toNat_succ htook.room
    · rcases htook.holds with hin | hout
      · exact hin.2
      · simp [hrun] at hout
    · rcases htook.holds with hin | hout
      · simp [haborted] at hin
      · exact hout.2
  · rintro e rfl
    have hturned : Turned began.toPipeline left.toPipeline (some e) := happends
    have hlog := hturned.toSameLog
    refine ⟨hlog.accepted, hlog.optimisticNextLSN, hlog.hasTimestamp, hlog.lastTimestamp, fun hwhy => ⟨fun hby => ?_, ?_⟩⟩
    · refine (hturned.terminatedBy hby).resolve_right ?_
      rintro ⟨_, ⟨⟩, hfatal⟩
      rcases hwhy with hctx | hstart | hbudget
      · exact hfatal.context hctx
      · simp [hfatal.start] at hstart
      · simp [hfatal.budget] at hbudget
    · exact (others_kept hrests.away.others hrests.inv).optimisticNextLSN.trans hlog.optimisticNextLSN

theorem append_all_or_nothing_appended : ∃ record began lsn left,
    Sample.appended.threads .foreground = .returned (.append record) began (.ok lsn) left ∧
    lsn = began.optimisticNextLSN := by
  have hsome : (Sample.accepted (Sample.appended.threads .foreground)).isSome = true := by
    have := Sample.outcomes
    simp only [Bool.and_eq_true] at this
    exact this.1.1.2
  obtain ⟨r, haccepted⟩ := Option.isSome_iff_exists.1 hsome
  unfold Sample.accepted at haccepted
  split at haccepted
  · rename_i record began lsn left hret
    exact ⟨record, began, lsn, left, hret, ((append_all_or_nothing Sample.reaches_appended hret).1 lsn rfl).1⟩
  · cases haccepted

/-- The writer becomes terminal while the cut after the record waits: `Append` returns the LSN, and the record
is in no segment of the pipeline. -/
theorem append_accepts_what_is_given_up : ∃ c σ record began lsn left, Reaches c σ ∧
    σ.threads .foreground = .returned (.append record) began (.ok lsn) left ∧
    ∀ piece ∈ left.pieces, record.at lsn ∉ piece.records := by
  have hout := Sample.outcomes
  simp only [Bool.and_eq_true] at hout
  obtain ⟨⟨⟨hgiven, _⟩, _⟩, _⟩ := hout
  unfold Sample.accepted at hgiven
  split at hgiven
  · rename_i record began lsn left hret
    simp only [Option.elim_some, Bool.and_eq_true, List.isEmpty_iff] at hgiven
    exact ⟨_, _, record, began, lsn, left, Sample.reaches_given, hret, by simp [hgiven.2]⟩
  · simp at hgiven

end ObjLog.Writer
