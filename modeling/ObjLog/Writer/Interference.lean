import ObjLog.Writer.Pipeline
/-!
# What the other goroutines leave alone

The goroutines of a writer as programs that share its state: their moves, what
they are answered from outside, and what each finds unchanged after the others
have moved.
-/

namespace ObjLog.Writer

open Lib Catformat Pmeta

variable {j : Goroutine}

/-! ## The monitor -/

/-- `ctx.Err()` of a context that has ended. -/
def ContextErr (e : Err) : Prop := e = .bare .canceled ∨ e = .bare .deadlineExceeded

/-- An error of the seal workers, the emitter or the sink: none of them returns the writer's errors. -/
def Outside (e : Err) : Prop := ∀ s, e.is (.writer s) = false

def OutsideSelect : Segwriter.Select → Prop
  | .served => True
  | .cancelled ctxErr firstErr => ContextErr ctxErr ∧ ∀ e, firstErr = some e → Outside e
  | .stopped firstErr => ∀ e, firstErr = some e → Outside e

structure OutsideAppend (t : Segwriter.AppendTurn) : Prop where
  firstErr : ∀ e, t.firstErr = some e → Outside e
  take : OutsideSelect t.take
  enqueue : OutsideSelect t.enqueue
  retake : OutsideSelect t.retake
  cleanup : ∀ e, t.cleanup = some e → Outside e

def Answers : (e : Call) → e.Answer → Prop
  | .segwriterAppend, t => OutsideAppend t
  | .ctxErr, e => ∀ err, e = some err → ContextErr err
  | _, _ => True

/-- The workers' context ends when the drain starts; a caller's context may end at any time. -/
def Ends : Ctx → State → Err → Prop
  | .caller, _, e => ContextErr e
  | .worker, s, e => s.drainStarted = true ∧ e = .bare .canceled

def monitor : Monitor Goroutine State Ctx Err Call Call.Answer where
  move g s s' := Move g s.toPipeline s'.toPipeline ∨ s'.toPipeline = s.toPipeline
  inv s := Inv s.toPipeline
  ends := Ends
  answers := Answers
  inv_move := by
    rintro g s s' (hmove | hsame) h
    · exact hmove.inv h
    · rwa [hsame]

variable {g : Goroutine} {s s' : State} {p p' : Pipeline}

/-- What every move of the others keeps of the pipeline, they keep. -/
theorem others_keep {P : Pipeline → Prop} (h : monitor.Others g s s') (hinv : Inv s.toPipeline) (hP : P s.toPipeline)
    (hmove : ∀ {j p p'}, j ≠ g → Inv p → Move j p p' → P p → P p') : P s'.toPipeline := by
  refine Monitor.Others.keeps (P := fun s => P s.toPipeline) h hinv hP ?_
  rintro j u v hj hu (huv | hsame) hPu
  · exact hmove hj hu huv hPu
  · rwa [hsame]

/-! ## The caller -/

/-- The same records are accepted, and the caller is as far. -/
structure SameLog (p p' : Pipeline) : Prop where
  optimisticNextLSN : p'.optimisticNextLSN = p.optimisticNextLSN
  hasTimestamp : p'.hasTimestamp = p.hasTimestamp
  lastTimestamp : p'.lastTimestamp = p.lastTimestamp
  accepted : p'.accepted = p.accepted
  closed : p'.closed = p.closed
  discarding : p'.discarding = p.discarding
  aborted : p.aborted = true → p'.aborted = true

theorem SameLog.refl (p : Pipeline) : SameLog p p := ⟨rfl, rfl, rfl, rfl, rfl, rfl, id⟩

theorem SameLog.trans {p q r : Pipeline} (h : SameLog p q) (h' : SameLog q r) : SameLog p r where
  optimisticNextLSN := h'.optimisticNextLSN.trans h.optimisticNextLSN
  hasTimestamp := h'.hasTimestamp.trans h.hasTimestamp
  lastTimestamp := h'.lastTimestamp.trans h.lastTimestamp
  accepted := h'.accepted.trans h.accepted
  closed := h'.closed.trans h.closed
  discarding := h'.discarding.trans h.discarding
  aborted := h'.aborted ∘ h.aborted

/-- What the others leave to the caller's goroutine. -/
structure Kept (p p' : Pipeline) : Prop extends SameLog p p' where
  active : p.active = none → p'.active = none
  terminatedBy : p'.terminatedBy = some .foreground → p.terminatedBy = some .foreground

theorem Kept.refl (p : Pipeline) : Kept p p := ⟨.refl p, id, id⟩

theorem Kept.trans {p q r : Pipeline} (h : Kept p q) (h' : Kept q r) : Kept p r :=
  ⟨h.toSameLog.trans h'.toSameLog, h'.active ∘ h.active, h.terminatedBy ∘ h'.terminatedBy⟩

theorem Move.kept (h : Move j p p') (hj : j ≠ .foreground) : Kept p p' := by
  cases h with
  | detach _ hactive => exact { Kept.refl p with active := fun hnone => by simp [hnone] at hactive }
  | terminate =>
    refine { Kept.refl p with active := fun _ => rfl, aborted := fun _ => rfl, terminatedBy := fun hby => ?_ }
    simp only [Pipeline.terminate] at hby
    split at hby
    · exact hby
    · exact absurd (Option.some.inj hby) hj
  | start | accept | refuse | take | discard | close => exact absurd rfl hj
  | _ => exact { Kept.refl p with }

theorem others_kept (h : monitor.Others .foreground s s') (hinv : Inv s.toPipeline) : Kept s.toPipeline s'.toPipeline :=
  others_keep (P := Kept s.toPipeline) h hinv (.refl _) fun hj _ hmove hkept => hkept.trans (hmove.kept hj)

/-- The others leave a drained writer drained. -/
theorem others_drained (h : monitor.Others .foreground s s') (hinv : Inv s.toPipeline) (hd : Drained s.toPipeline) :
    Drained s'.toPipeline :=
  others_keep h hinv hd fun hj _ hmove hdrained => hdrained.move hmove fun heq => absurd heq hj

/-! ## The goroutine whose transition it is -/

/-- The active segment stays, or the writer has become terminal and given it up. -/
def Stays (g : Goroutine) (a : ActiveSegment) (p : Pipeline) : Prop :=
  p.activeTransition = some g ∧
    ((p.aborted = false ∧ p.active = some a) ∨ (p.aborted = true ∧ a.writer ∈ p.abandoned))

theorem Move.stays {a : ActiveSegment} (h : Move j p p') (hj : j ≠ g) (hs : Stays g a p) : Stays g a p' := by
  obtain ⟨htrans, hrest⟩ := hs
  have hne : p.activeTransition ≠ some j := fun heq => hj (Option.mem_unique heq htrans)
  have hsome : p.activeTransition ≠ none := by simp [htrans]
  cases h with
  | «begin» hnone | start hnone | accept hnone | refuse hnone | take hnone => exact absurd hnone hsome
  | finish hmine => exact absurd hmine hne
  | detach hmine => exact absurd hmine hne
  | terminate =>
    refine ⟨htrans, .inr ⟨rfl, ?_⟩⟩
    rcases hrest with ⟨haborted, hactive⟩ | ⟨haborted, hmem⟩
    · simp [Pipeline.terminate, haborted, hactive]
    · simpa [Pipeline.terminate, haborted] using hmem
  | _ => exact ⟨htrans, hrest⟩

theorem others_stays {a : ActiveSegment} (h : monitor.Others g s s') (hinv : Inv s.toPipeline)
    (hs : Stays g a s.toPipeline) : Stays g a s'.toPipeline :=
  others_keep h hinv hs fun hj _ hmove hst => hmove.stays hj hst

/-! ## The goroutine that has the session -/

theorem Move.session {c : Snapshot} (h : Move j p p') (hj : j ≠ g)
    (hs : p.sessionMu = some g ∧ p.committed = c) : p'.sessionMu = some g ∧ p'.committed = c := by
  obtain ⟨hmu, hc⟩ := hs
  have hne : p.sessionMu ≠ some j := fun heq => hj (Option.mem_unique heq hmu)
  cases h with
  | lockSession hnone => simp [hmu] at hnone
  | unlockSession hmine | retained hmine | published hmine => exact absurd hmine hne
  | _ => exact ⟨hmu, hc⟩

theorem others_session (h : monitor.Others g s s') (hinv : Inv s.toPipeline) (hmu : s.sessionMu = some g) :
    s'.sessionMu = some g ∧ s'.committed = s.committed :=
  others_keep (P := fun p => p.sessionMu = some g ∧ p.committed = s.committed) h hinv ⟨hmu, rfl⟩
    fun hj _ hmove hs => hmove.session hj hs

/-! ## The workers -/

theorem Move.finalizing (h : Move j p p') (hj : j ≠ .finalize) : p'.finalizing = p.finalizing := by
  cases h with
  | pop => exact absurd rfl hj
  | finalized => exact absurd rfl hj
  | _ => rfl

theorem others_finalizing (h : monitor.Others .finalize s s') (hinv : Inv s.toPipeline) :
    s'.finalizing = s.finalizing :=
  others_keep (P := fun p => p.finalizing = s.finalizing) h hinv rfl
    fun hj _ hmove heq => (hmove.finalizing hj).trans heq

theorem Move.publishing (h : Move j p p') (hj : j ≠ .publish) :
    p'.publishing = p.publishing ∧ p'.outstanding = p.outstanding := by
  cases h with
  | look | call | published => exact absurd rfl hj
  | _ => exact ⟨rfl, rfl⟩

theorem others_publishing (h : monitor.Others .publish s s') (hinv : Inv s.toPipeline) :
    s'.publishing = s.publishing ∧ s'.outstanding = s.outstanding :=
  others_keep (P := fun p => p.publishing = s.publishing ∧ p.outstanding = s.outstanding) h hinv ⟨rfl, rfl⟩
    fun hj _ hmove heq => ⟨(hmove.publishing hj).1.trans heq.1, (hmove.publishing hj).2.trans heq.2⟩

end ObjLog.Writer
