import ObjLog.Lib.Threads
import ObjLog.Writer.Workers
/-!
# Every run of a writer

The goroutines of one writer as threads: the caller's, whose calls come one
after the other, any number of callers of `ApplyPendingRetention`, the workers
and the drain. In every reachable state the pipeline is in order, and a call
that has returned has done what its result says.
-/

namespace ObjLog.Writer

open Lib Monitor Catformat Pmeta

variable {g : Goroutine} {s : State} {c : Config}

inductive Job where
  | append (record : Record)
  | cut | flush | close | abort
  | applyPendingRetention
  | age | finalize | publish | drain

@[reducible] def Job.Reply : Job → Type
  | .append _ => Except Err UInt64
  | .cut => Option Err
  | .flush => Except Err Snapshot
  | .close => Except Err Snapshot
  | .abort => Option Err
  | .applyPendingRetention => Except Err RetentionResult
  | .age => Bool
  | .finalize => Bool
  | .publish => Bool
  | .drain => Unit

def Config.body (c : Config) (g : Goroutine) : (j : Job) → P j.Reply
  | .append record => c.append record
  | .cut => c.cut
  | .flush => c.flush
  | .close => c.close
  | .abort => Config.abort
  | .applyPendingRetention => c.applyPendingRetention g
  | .age => Config.worker c.ageTurn
  | .finalize => Config.worker c.finalizeTurn
  | .publish => Config.worker c.publishTurn
  | .drain => Config.runDrain

/-- Who runs what: `ageLoop` is only started with a maximal age, `runDrain` by `startDrainLocked`. -/
def Config.starts (c : Config) : Goroutine → State → Job → Bool
  | .foreground, _, .append _ => true
  | .foreground, _, .cut => true
  | .foreground, _, .flush => true
  | .foreground, _, .close => true
  | .foreground, _, .abort => true
  | .retention _, _, .applyPendingRetention => true
  | .age, _, .age => decide (c.opts.roll.maxSegmentAge > 0)
  | .finalize, _, .finalize => true
  | .publish, _, .publish => true
  | .drain, s, .drain => s.drainStarted
  | _, _, _ => false

/-- A call may be followed by another; a loop goes on while its turn says so. -/
def Job.again : (j : Job) → j.Reply → Bool
  | .age, goes => goes
  | .finalize, goes => goes
  | .publish, goes => goes
  | .drain, _ => false
  | _, _ => true

def Config.jobs (c : Config) : Jobs Goroutine State Ctx Err Call Call.Answer Job.Reply where
  body := c.body
  starts := c.starts
  again := Job.again

abbrev Threads := System Goroutine State Ctx Err Call Call.Answer Job.Reply

/-- The states of a writer that `New` has returned, and all that follow. -/
def Reaches (c : Config) : Threads → Prop :=
  c.jobs.Reaches monitor fun s => ∃ cpus opts snapshot, new cpus opts snapshot = .ok (c, s)

/-! ## What each goroutine finds and leaves -/

def Ready : Goroutine → Pipeline → Prop
  | .foreground, p => Idle p
  | .finalize, p => p.finalizing = none
  | .publish, p => p.outstanding = none
  | _, _ => True

theorem others_ready {s' : State} (h : monitor.Others g s s') (hinv : Inv s.toPipeline)
    (hready : Ready g s.toPipeline) : Ready g s'.toPipeline := by
  cases g with
  | foreground => exact Idle.same hready (others_kept h hinv).toSameLog
  | finalize => exact (others_finalizing h hinv).trans hready
  | publish => exact (others_publishing h hinv).2.trans hready
  | age => trivial
  | drain => trivial
  | retention n => trivial

/-- What a call has done when it returns. -/
def Ensures (p p' : Pipeline) : (j : Job) → j.Reply → Prop
  | .append record, r => Appends record p p' r
  | .flush, r => Flushed p' r
  | .close, r => Flushed p' r
  | _, _ => True

def Leaves (g : Goroutine) (j : Job) (began : State) (r : j.Reply) (left : State) : Prop :=
  Ensures began.toPipeline left.toPipeline j r ∧ (j.again r = true → Ready g left.toPipeline)

/-- A worker's turn, with its end. -/
theorem wp_worker_leaves {turn : P Bool} {w : World Goroutine State}
    (h : monitor.wp g (fun goes s w => monitor.Rests g w s ∧ (goes = true → Ready g s.toPipeline)) turn s w) :
    monitor.wp g (fun goes s w => monitor.Rests g w s ∧ (goes = true → Ready g s.toPipeline)) (Config.worker turn) s w := by
  refine wp_worker (wp_mono (fun goes s₁ w₁ hturn => ⟨hturn.1, fun hgoes => ?_⟩) h) (fun s' w' hrests => ⟨hrests, nofun⟩)
    (fun s' w' w'' hgoes hr => ⟨hgoes.1.rely hr, hgoes.2⟩)
  exact ⟨hturn.1, fun _ => hturn.2 hgoes⟩

theorem job_leaves {j : Job} {w : World Goroutine State} (hstarts : c.starts g w.shared j = true)
    (h : monitor.Rests g w w.shared) (hready : Ready g w.shared.toPipeline) :
    monitor.wp g (fun r s w' => monitor.Rests g w' s ∧ Leaves g j w.shared r s) (c.body g j) w.shared w := by
  cases g with
  | foreground =>
    have hidle : Idle w.shared.toPipeline := hready
    cases j with
    | append record =>
      exact wp_mono (fun r s w' hret => ⟨hret.2, hret.1, fun _ => hret.1.idle hidle⟩) (wp_append h.away record)
    | cut => exact wp_mono (fun r s w' hret => ⟨hret.2, trivial, fun _ => hret.1⟩) (wp_cut h.away hidle)
    | flush => exact wp_mono (fun r s w' hret => ⟨hret.2, hret.1.2, fun _ => hret.1.1⟩) (wp_flush h.away hidle)
    | close => exact wp_mono (fun r s w' hret => ⟨hret.2, hret.1.2, fun _ => hret.1.1⟩) (wp_close h.away hidle)
    | abort => exact wp_mono (fun r s w' hret => ⟨hret.2, trivial, fun _ => hret.1⟩) (wp_abort h.away)
    | _ => cases hstarts
  | age =>
    cases j with
    | age =>
      refine wp_mono (fun r s w' hret => ⟨hret.1, trivial, hret.2⟩) (wp_worker_leaves ?_)
      exact wp_mono (fun r s w' hrests => ⟨hrests, fun _ => trivial⟩) (wp_ageTurn h)
    | _ => cases hstarts
  | finalize =>
    cases j with
    | finalize =>
      exact wp_mono (fun r s w' hret => ⟨hret.1, trivial, hret.2⟩) (wp_worker_leaves (wp_finalizeTurn h hready))
    | _ => cases hstarts
  | publish =>
    cases j with
    | publish =>
      exact wp_mono (fun r s w' hret => ⟨hret.1, trivial, hret.2⟩) (wp_worker_leaves (wp_publishTurn h hready))
    | _ => cases hstarts
  | drain =>
    cases j with
    | drain => exact wp_mono (fun r s w' hrests => ⟨hrests, trivial, fun _ => trivial⟩) (wp_runDrain h)
    | _ => cases hstarts
  | retention n =>
    cases j with
    | applyPendingRetention =>
      exact wp_mono (fun r s w' hrests => ⟨hrests, trivial, fun _ => trivial⟩) (wp_applyPendingRetention h)
    | _ => cases hstarts

theorem jobs_meet (c : Config) :
    c.jobs.Meets monitor (fun g s => Ready g s.toPipeline) (fun g j began r left => Leaves g j began r left) where
  others := others_ready
  job := job_leaves
  again h hagain := h.2 hagain

theorem initialState_inv (snapshot : Snapshot) (workers : Nat) : Inv (initialState snapshot workers).toPipeline where
  active _ h := absurd h.symm (Option.some_ne_none _)
  idle h := Bool.noConfusion h
  discarding _ h := absurd h.symm (Option.some_ne_none _)
  transition h := Bool.noConfusion h
  running _ := {
    laidOut := rfl
    finalizing := fun _ h => absurd h.symm (Option.some_ne_none _)
    detached := fun _ h => absurd h List.not_mem_nil
    ready := fun _ h => absurd h List.not_mem_nil
    accepted := rfl
    numbered := ⟨_, rfl⟩
    sorted := .nil
    last := fun _ h => absurd h List.not_mem_nil
    queue := rfl
    nextCutSeq := rfl
    publishing := fun _ h => absurd h.symm (Option.some_ne_none _)
    seqs := rfl
    calls := fun _ h => absurd h List.not_mem_nil
    started := rfl
    retired := fun _ h => absurd h List.not_mem_nil }
  drained h := Bool.noConfusion h

theorem new_state {cpus : Int} {opts : Options} {snapshot : Snapshot}
    (h : new cpus opts snapshot = .ok (c, s)) : ∃ workers, s = initialState snapshot workers := by
  simp only [new, checks_ok] at h
  obtain ⟨_, _, _, _, _, _, _, rfl⟩ := h
  exact ⟨_, rfl⟩

/-- In every reachable state the pipeline is in order, and so is every goroutine. -/
theorem Reaches.ok {σ : Threads} (h : Reaches c σ) : Inv σ.world.shared.toPipeline ∧ ∀ g,
    Jobs.ThreadOk monitor (fun g s => Ready g s.toPipeline) (fun g j began r left => Leaves g j began r left) g
      σ.world (σ.threads g) := by
  refine Jobs.Reaches.ok (jobs_meet c) (fun s hs => ?_) (fun s g hs => ?_) h
  · obtain ⟨cpus, opts, snapshot, hnew⟩ := hs
    obtain ⟨workers, rfl⟩ := new_state hnew
    exact initialState_inv snapshot workers
  · obtain ⟨cpus, opts, snapshot, hnew⟩ := hs
    obtain ⟨workers, rfl⟩ := new_state hnew
    cases g with
    | foreground => exact .inr rfl
    | finalize => rfl
    | publish => rfl
    | age => trivial
    | drain => trivial
    | retention n => trivial

end ObjLog.Writer
