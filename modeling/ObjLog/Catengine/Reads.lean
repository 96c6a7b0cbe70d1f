import ObjLog.Catengine.Determinate
import ObjLog.Catengine.Sealing
/-!
# Reading pages that may not answer

Lookups and retention read pages of a store that others write meanwhile, and
any read may fail. `Reads pages p r` says that `p` can return `r` when each page
read is answered from `pages` or fails, and any context check may fail.

A `Reader` reads pages only, and what it returns without an error is what it
returns when every read is served (`Reader.sound`). So its result does not
depend on when the pages were read, nor on pages written meanwhile
(`Reader.eval_mono`). Its errors leave no commit in doubt (`Reader.errors`).
-/

namespace ObjLog.Catengine

open Lib Catformat Pmeta Blobstore

variable [Hashes] {config : Config} {α β : Type} {pages : Pages} {p : Effects α} {x : M α}

inductive Reads (pages : Pages) : Effects α → α → Prop
  | ret (r : α) : Reads pages (.ret r) r
  | ctx {k : Option Err → Effects α} {r : α} (a : Option Err) :
      (∀ e, a = some e → Determinate e) → Reads pages (k a) r → Reads pages (.op .ctxErr k) r
  | got {key : String} {body : Bytes} {k : Except Err Object → Effects α} {r : α} :
      pages key = some body → Reads pages (k (.ok ⟨body, 1⟩)) r → Reads pages (.op (.get key) k) r
  | failed {key : String} {k : Except Err Object → Effects α} {r : α} (e : Err) :
      Determinate e → Reads pages (k (.error e)) r → Reads pages (.op (.get key) k) r

/-- Every operation is a context check or reads an object other than the head. -/
inductive ReadsOnly (config : Config) : Effects α → Prop
  | ret (r : α) : ReadsOnly config (.ret r)
  | ctx {k : Option Err → Effects α} : (∀ a, ReadsOnly config (k a)) → ReadsOnly config (.op .ctxErr k)
  | get {key : String} {k : Except Err Object → Effects α} :
      key ≠ config.headPath → (∀ a, ReadsOnly config (k a)) → ReadsOnly config (.op (.get key) k)

structure Reader (config : Config) (x : M α) : Prop where
  only : ReadsOnly config x.run
  sound : ∀ pages a, Reads pages x.run (.ok a) → eval pages x = .ok a
  errors : ∀ pages e, Reads pages x.run (.error e) → Determinate e

/-! ## Sequences -/

omit [Hashes] in
theorem reads_bind {f : α → Effects β} {r : β} (h : Reads pages (p >>= f) r) :
    ∃ a, Reads pages p a ∧ Reads pages (f a) r := by
  induction p with
  | ret a => exact ⟨a, .ret a, h⟩
  | op e k ih =>
    rw [Prog.op_bind] at h
    cases h with
    | ctx a ha h =>
      obtain ⟨b, hb, hr⟩ := ih a h
      exact ⟨b, .ctx a ha hb, hr⟩
    | got hk h =>
      obtain ⟨b, hb, hr⟩ := ih _ h
      exact ⟨b, .got hk hb, hr⟩
    | failed e he h =>
      obtain ⟨b, hb, hr⟩ := ih _ h
      exact ⟨b, .failed e he hb, hr⟩

theorem readsOnly_bind {f : α → Effects β} (h : ReadsOnly config p)
    (hf : ∀ a, ReadsOnly config (f a)) : ReadsOnly config (p >>= f) := by
  induction h with
  | ret r => exact hf r
  | ctx _ ih => exact .ctx ih
  | get hne _ ih => exact .get hne ih

namespace Reader

theorem pure (a : α) : Reader config (Pure.pure a : M α) := by
  refine ⟨.ret _, fun pages b h => ?_, fun pages e h => ?_⟩
  · cases h
    rfl
  · cases h

theorem throw {e : Err} (he : Determinate e) : Reader config (MonadExcept.throw e : M α) := by
  refine ⟨.ret _, fun pages b h => ?_, fun pages e' h => ?_⟩
  · cases h
  · cases h
    exact he

theorem lift {x : Except Err α} (hx : Decided x) : Reader config (liftM x : M α) := by
  cases x with
  | ok a => exact pure a
  | error e => exact throw (hx e rfl)

theorem failIf {c : Prop} [Decidable c] {e : Err} (he : Determinate e) :
    Reader config (liftM (ObjLog.failIf c e) : M Unit) :=
  lift (decided_failIf.2 fun _ => he)

theorem bind {f : α → M β} (hx : Reader config x) (hf : ∀ a, Reader config (f a)) : Reader config (x >>= f) := by
  refine ⟨?_, fun pages b h => ?_, fun pages e h => ?_⟩
  · rw [ExceptT.run_bind]
    refine readsOnly_bind hx.only ?_
    rintro (e | a)
    · exact .ret _
    · exact (hf a).only
  · rw [ExceptT.run_bind] at h
    obtain ⟨r, hr, h⟩ := reads_bind h
    cases r with
    | error e => cases h
    | ok a =>
      rw [eval_bind, hx.sound pages a hr]
      exact (hf a).sound pages b h
  · rw [ExceptT.run_bind] at h
    obtain ⟨r, hr, h⟩ := reads_bind h
    cases r with
    | error e' =>
      cases h
      exact hx.errors pages _ hr
    | ok a => exact (hf a).errors pages e h

theorem ite {c : Prop} [Decidable c] {y : M α} (hx : Reader config x) (hy : Reader config y) :
    Reader config (if c then x else y) := by
  split
  · exact hx
  · exact hy

theorem checkCtx : Reader config Blobstore.checkCtx := by
  refine ⟨.ctx fun a => ?_, fun pages b h => rfl, fun pages e h => ?_⟩
  · cases a with
    | none => exact .ret _
    | some e => exact .ret _
  · cases h with
    | ctx a ha h =>
      cases a with
      | none => cases h
      | some e' =>
        cases h
        exact ha _ rfl

/-- A page read; its error is an error of the reader. -/
theorem getPage {kind key : String} (hne : key ≠ config.headPath) : Reader config (Catengine.getPage kind key) := by
  refine ⟨.get hne fun a => ?_, fun pages b h => ?_, fun pages e h => ?_⟩
  · cases a with
    | ok o => exact .ret _
    | error e => exact .ret _
  · cases h with
    | failed e _ h => cases h
    | got hk h =>
      cases h
      simp only [Catengine.getPage, eval_bind, eval_adapt, eval_get, hk, eval_pure]
      rfl
  · cases h with
    | failed e he h =>
      cases h
      exact he
    | got _ h => cases h

end Reader

/-! ## Growing stores -/

/-- What is read from fewer pages can be read from more. -/
theorem reads_run {pages' : Pages} (hg : Grows pages pages') (h : ReadsOnly config p) :
    Reads pages' p (Prog.run (serve pages) p) := by
  induction h with
  | ret r => exact .ret r
  | ctx _ ih => exact .ctx none (fun e he => by cases he) (ih none)
  | @get key k _ _ ih =>
    rw [Prog.run_op]
    cases hk : pages key with
    | none =>
      have hs : serve pages (.get key) = .error (.bare .objectNotFound) := by simp only [serve, hk]
      rw [hs]
      exact .failed (.bare .objectNotFound) rfl (ih _)
    | some body =>
      have hs : serve pages (.get key) = .ok ⟨body, 1⟩ := by simp only [serve, hk]
      rw [hs]
      exact .got (hg _ _ hk) (ih _)

theorem Reader.eval_mono (hx : Reader config x) {pages' : Pages} (hg : Grows pages pages') {a : α}
    (h : eval pages x = .ok a) : eval pages' x = .ok a := by
  have hr := reads_run hg hx.only
  rw [show Prog.run (serve pages) x.run = .ok a from h] at hr
  exact hx.sound pages' a hr

/-! ## The readers of the catalog -/

theorem leafPagePath_ne_headPath (ref : IndexEntry) : config.leafPagePath ref ≠ config.headPath := by
  intro h
  have := congrArg String.toList h
  simp [Config.leafPagePath, Config.headPath, String.toList_append] at this

theorem indexPagePath_ne_headPath (ref : IndexEntry) : config.indexPagePath ref ≠ config.headPath := by
  intro h
  have := congrArg String.toList h
  simp [Config.indexPagePath, Config.headPath, String.toList_append] at this

theorem reader_loadLeaf (ref : IndexEntry) (e : UInt64) : Reader config (loadLeaf config ref e) :=
  (Reader.getPage (leafPagePath_ne_headPath ref)).bind fun _ => .lift (decided_checkLeaf _ _ _ _)

theorem reader_loadIndex (ref : IndexEntry) (e : UInt64) : Reader config (loadIndex config ref e) :=
  (Reader.getPage (indexPagePath_ne_headPath ref)).bind fun _ => .lift (decided_checkIndex _ _ _ _)

theorem reader_findInPage (lsn : UInt64) (depth : Nat) (ref : IndexEntry) (e : UInt64) :
    Reader config (findInPage config lsn depth ref e) := by
  induction depth generalizing ref e with
  | zero =>
    rw [findInPage.eq_def]
    refine .ite ((reader_loadLeaf _ _).bind fun page => ?_) (.throw rfl)
    split
    · exact .pure _
    · exact .pure _
  | succ depth ih =>
    rw [findInPage.eq_def]
    refine .ite ((reader_loadLeaf _ _).bind fun page => ?_) ((reader_loadIndex _ _).bind fun page => ?_)
    · split
      · exact .pure _
      · exact .pure _
    · split
      · exact .pure _
      · exact .ite (.pure _) (ih _ _)

theorem reader_findSegment (head : Head) (lsn : UInt64) : Reader config (findSegment config head lsn) := by
  refine Reader.checkCtx.bind fun _ => (Reader.lift (decided_validateConfigHead _ _)).bind fun _ => .ite (.pure _) ?_
  dsimp only
  split
  · exact .pure _
  · refine .ite (.pure _) ?_
    split
    · exact .pure _
    · exact reader_findInPage _ _ _ _

theorem reader_trimPageRef (effective generation e : UInt64) (depth : Nat) (ref : IndexEntry) :
    Reader config (trimPageRef config effective generation e depth ref) := by
  induction depth generalizing ref with
  | zero =>
    rw [trimPageRef.eq_def]
    refine .ite (.pure _) (.ite (.throw rfl) (.ite ((reader_loadLeaf _ _).bind fun page => ?_) (.throw rfl)))
    exact Reader.bind (.failIf rfl) fun _ => (Reader.lift (decided_sealLeaf _ _ _ _)).bind fun _ => .pure _
  | succ depth ih =>
    rw [trimPageRef.eq_def]
    refine .ite (.pure _) (.ite (.throw rfl) (.ite ((reader_loadLeaf _ _).bind fun page => ?_)
      ((reader_loadIndex _ _).bind fun page => ?_)))
    · exact Reader.bind (.failIf rfl) fun _ => (Reader.lift (decided_sealLeaf _ _ _ _)).bind fun _ => .pure _
    · split
      · exact .throw rfl
      · refine Reader.bind (.ite (ih _) (.pure _)) fun _ => Reader.bind (.failIf rfl) fun _ => ?_
        exact (Reader.lift (decided_sealIndex _ _ _ _ _)).bind fun _ => .pure _

theorem reader_trimSections (effective generation e : UInt64) (ss : List OpenIndexSection) :
    Reader config (trimSections config effective generation e ss) := by
  induction ss with
  | nil => exact .pure _
  | cons s ss ih =>
    have hs : Reader config (trimSection config effective generation e s) := by
      unfold trimSection
      split
      · exact .pure _
      · exact .ite ((reader_trimPageRef _ _ _ _ _).bind fun _ => .pure _) (.pure _)
    exact hs.bind fun _ => ih.bind fun _ => .pure _

theorem reader_trimHead (effective : UInt64) (head : Head) : Reader config (trimHead config effective head) := by
  unfold trimHead
  refine (reader_trimSections _ _ _ _).bind fun _ => Reader.bind (.failIf rfl) fun _ => .pure _

theorem reader_cutHistory (head next : Head) (target : UInt64) : Reader config (cutHistory config head next target) := by
  refine .ite (.pure _) (.ite (.pure _) ((reader_findSegment _ _).bind fun found => ?_))
  split
  · exact .throw rfl
  · exact .ite ((reader_trimHead _ _).bind fun _ => .pure _) (.pure _)

theorem reader_applyRetention (head : Head) (before version : UInt64) :
    Reader config (applyRetention config head before version) := by
  unfold applyRetention
  refine Reader.checkCtx.bind fun _ => (Reader.lift (decided_validateConfigHead _ _)).bind fun _ =>
    Reader.bind (.failIf rfl) fun _ => .ite ?_ ?_
  · exact (Reader.lift (decided_marshalHead _)).bind fun _ => .pure _
  · refine Reader.bind (.failIf rfl) fun _ => Reader.bind (.failIf rfl) fun _ =>
      Reader.bind (.failIf rfl) fun _ => ?_
    exact (reader_cutHistory _ _ _).bind fun _ => (Reader.lift (decided_reachableSegmentCount _)).bind fun _ =>
      (Reader.lift (decided_marshalHead _)).bind fun _ => .pure _

end ObjLog.Catengine
