import ObjLog.Lib.Rely
import ObjLog.Catengine.Chain
/-!
# A process among others

While process `i` waits, others extend the log by commits of theirs and store
pages (`Rely`). Each operation of `i` itself extends the log by at most one
commit, of `i` (`Moves`). Both keep the log linear, and what one process may do
is what every other relies on (`Moves.rely`).

A `View` is the store together with what the current call has gone through: a
compare-and-swap, and a page read or context check that failed.
-/

namespace ObjLog.Catengine

open Lib Catformat Pmeta Blobstore

variable [Hashes] {config : Config} {i : Pid} {author : Author} {allow : Head → Head → Prop}
  {w w' w'' : World} {n : Nat} {c : Commit}

structure Rely (config : Config) (i : Pid) (w w' : World) : Prop where
  linear : Linear config w → Linear config w'
  log : ∃ cs, w'.log = w.log ++ cs ∧ ∀ c ∈ cs, c.author.pid ≠ i
  pages : Grows w.pages w'.pages

namespace Rely

theorem refl (w : World) : Rely config i w w := ⟨id, ⟨[], by simp⟩, Grows.refl _⟩

theorem trans (h : Rely config i w w') (h' : Rely config i w' w'') : Rely config i w w'' := by
  obtain ⟨cs, hcs, hne⟩ := h.log
  obtain ⟨cs', hcs', hne'⟩ := h'.log
  refine ⟨h'.linear ∘ h.linear, ⟨cs ++ cs', by rw [hcs', hcs, List.append_assoc], ?_⟩, h.pages.trans h'.pages⟩
  intro c hc
  rcases List.mem_append.1 hc with hc | hc
  · exact hne c hc
  · exact hne' c hc

theorem length (h : Rely config i w w') : w.log.length ≤ w'.log.length := by
  obtain ⟨cs, hcs, _⟩ := h.log
  rw [hcs, List.length_append]
  exact Nat.le_add_right _ _

theorem kept (h : Rely config i w w') (hc : w.log[n]? = some c) : w'.log[n]? = some c := by
  obtain ⟨cs, hcs, _⟩ := h.log
  rw [hcs, List.getElem?_append_left (List.getElem?_eq_some_iff.1 hc).1]
  exact hc

/-- The commits of the process itself were there before. -/
theorem own (h : Rely config i w w') (hc : w'.log[n]? = some c) (hi : c.author.pid = i) : w.log[n]? = some c := by
  obtain ⟨cs, hcs, hne⟩ := h.log
  rcases Nat.lt_or_ge n w.log.length with hlt | hge
  · rw [hcs, List.getElem?_append_left hlt] at hc
    exact hc
  · rw [hcs, List.getElem?_append_right hge] at hc
    exact absurd hi (hne c (List.mem_of_getElem? hc))

end Rely

/-- One operation of the process. -/
structure Moves (config : Config) (author : Author) (allow : Head → Head → Prop) (w w' : World) :
    Prop where
  linear : Linear config w → Linear config w'
  log : w'.log = w.log ∨ ∃ c, w'.log = w.log ++ [c] ∧ c.author = author ∧
    ∀ b, w.log.getLast? = some b → allow (b.head config) (c.head config)
  pages : Grows w.pages w'.pages

/-- What one process does is what another relies on. -/
theorem Moves.rely (h : Moves config author allow w w') (hne : author.pid ≠ i) : Rely config i w w' := by
  refine ⟨h.linear, ?_, h.pages⟩
  rcases h.log with hlog | ⟨c, hlog, ha, _⟩
  · exact ⟨[], by rw [hlog, List.append_nil], by simp⟩
  · refine ⟨[c], hlog, fun d hd => ?_⟩
    rw [List.mem_singleton.1 hd, ha]
    exact hne

/-! ## Extending the log -/

theorem Linear.grow (h : Linear config w) (hlog : w'.log = w.log) (hg : Grows w.pages w'.pages) : Linear config w' := by
  refine ⟨fun c hc => h.first c (hlog ▸ hc), fun n b c hb hc => ?_⟩
  rw [hlog] at hb hc
  obtain ⟨m, hm, hbody⟩ := h.next n b c hb hc
  exact ⟨m, hm.mono hg, hbody⟩

/-- Storing pages moves nothing else. -/
theorem Moves.of_pages (hlog : w'.log = w.log) (hg : Grows w.pages w'.pages) : Moves config author allow w w' :=
  ⟨fun h => h.grow hlog hg, .inl hlog, hg⟩

theorem Rely.of_pages (hlog : w'.log = w.log) (hg : Grows w.pages w'.pages) : Rely config i w w' :=
  ⟨fun h => h.grow hlog hg, ⟨[], by rw [hlog, List.append_nil], by simp⟩, hg⟩

theorem Linear.commit {body : Bytes} (h : Linear config w)
    (hfirst : w.log = [] → ∃ head, Starts config author head body)
    (hnext : ∀ b, w.log.getLast? = some b → ∃ m, Mutates config w.pages author (b.head config) m ∧ m.headBody = body) :
    Linear config (w.commit author body) := by
  refine ⟨fun c hc => ?_, fun n b c hb hc => ?_⟩
  · cases hw : w.log with
    | nil =>
      simp only [World.commit, hw, List.nil_append, List.getElem?_cons_zero, Option.some.injEq] at hc
      rw [← hc]
      exact hfirst hw
    | cons d ds =>
      refine h.first c ?_
      simp only [World.commit, hw, List.cons_append, List.getElem?_cons_zero] at hc ⊢
      exact hc
  · rcases Nat.lt_trichotomy (n + 1) w.log.length with hlt | heq | hgt
    · simp only [World.commit, List.getElem?_append_left hlt] at hc
      simp only [World.commit, List.getElem?_append_left (Nat.lt_of_succ_lt hlt)] at hb
      exact h.next n b c hb hc
    · have hb' : w.log.getLast? = some b := by
        simp only [World.commit, List.getElem?_append_left (Nat.lt_of_succ_le (Nat.le_of_eq heq))] at hb
        rw [List.getLast?_eq_getElem?, ← heq]
        exact hb
      simp only [World.commit, heq, List.getElem?_concat_length, Option.some.injEq] at hc
      rw [← hc]
      exact hnext b hb'
    · have hlen := (List.getElem?_eq_some_iff.1 hc).1
      simp only [World.commit, List.length_append, List.length_singleton] at hlen
      omega

/-! ## Views -/

structure View where
  world : World
  cas : Bool
  failed : Bool

/-- A context check or page read that did not succeed. -/
def failedRead (config : Config) : (op : Op) → op.Answer → Bool
  | .ctxErr, a => a.isSome
  | .get key, a => key ≠ config.headPath ∧ a.toOption = none
  | _, _ => false

def isCas : Op → Bool
  | .cas _ _ _ => true
  | _ => false

/-- The view after an operation that left the store as `w'`. -/
def View.saw (config : Config) (v : View) (op : Op) (a : op.Answer) (w' : World) : View :=
  ⟨w', v.cas || isCas op, v.failed || failedRead config op a⟩

/-- The surroundings of a process. Its commits carry `author` and are steps that `allow` permits. -/
def env (config : Config) (author : Author) (allow : Head → Head → Prop) :
    Env View Op Op.Answer where
  rely v v' := Rely config author.pid v.world v'.world ∧ v'.cas = v.cas ∧ v'.failed = v.failed
  act v op a v' := ∃ w', Act config author v.world op a w' ∧ v' = v.saw config op a w'
  guar v v' := Moves config author allow v.world v'.world
  refl _ := ⟨Rely.refl _, rfl, rfl⟩
  trans h h' := ⟨h.1.trans h'.1, h'.2.1.trans h.2.1, h'.2.2.trans h.2.2⟩

/-- The others moved, and the process itself did no more than read and store pages. -/
structure Later (config : Config) (i : Pid) (v v' : View) : Prop where
  rely : Rely config i v.world v'.world
  cas : v'.cas = v.cas
  failed : v'.failed = false → v.failed = false

namespace Later

variable {v v' v'' : View}

theorem trans (h : Later config i v v') (h' : Later config i v' v'') : Later config i v v'' :=
  ⟨h.rely.trans h'.rely, h'.cas.trans h.cas, h.failed ∘ h'.failed⟩

theorem of_rely (h : (env config author allow).rely v v') : Later config author.pid v v' :=
  ⟨h.1, h.2.1, fun hf => h.2.2 ▸ hf⟩

end Later

/-! ## Operations that leave the log alone -/

section
variable {α : Type} {v v' : View}

theorem wp_reads {p : Effects α} (h : ReadsOnly config p) (v : View) :
    (env config author allow).wp (fun r v' => Later config author.pid v v' ∧ Reads v'.world.pages p r ∧
      (v'.failed = false → r = Prog.run (serve v'.world.pages) p)) p v := by
  induction h generalizing v with
  | ret r => exact fun v' hr => ⟨.of_rely hr, .ret r, fun _ => rfl⟩
  | @ctx k _ ih =>
    rintro u hu a _ ⟨w', ha, rfl⟩
    obtain ⟨rfl, hforeign⟩ := act_ctxErr ha
    refine ⟨Moves.of_pages rfl (Grows.refl _), Env.wp_mono ?_ (ih a _)⟩
    rintro r v' ⟨hlater, hreads, hclean⟩
    have hsaw : Later config author.pid u (u.saw config .ctxErr a u.world) :=
      ⟨Rely.refl _, by simp [View.saw, isCas], fun hf => (Bool.or_eq_false_iff.1 hf).1⟩
    refine ⟨(Later.of_rely hu).trans (hsaw.trans hlater),
      .ctx a (fun e he => (hforeign e he).determinate) hreads, fun hf => ?_⟩
    have hnone : a = none := by
      have := (Bool.or_eq_false_iff.1 (hlater.failed hf)).2
      simpa [failedRead] using this
    rw [hclean hf, hnone]
    rfl
  | @get key k hne _ ih =>
    rintro u hu a _ ⟨w', ha, rfl⟩
    obtain ⟨rfl, hanswer⟩ := act_get ha
    refine ⟨Moves.of_pages rfl (Grows.refl _), Env.wp_mono ?_ (ih a _)⟩
    rintro r v' ⟨hlater, hreads, hclean⟩
    have hsaw : Later config author.pid u (u.saw config (.get key) a u.world) :=
      ⟨Rely.refl _, by simp [View.saw, isCas], fun hf => (Bool.or_eq_false_iff.1 hf).1⟩
    refine ⟨(Later.of_rely hu).trans (hsaw.trans hlater), ?_, fun hf => ?_⟩
    · cases a with
      | error e =>
        refine .failed e ?_ hreads
        obtain hread | ⟨_, hf, he⟩ := hanswer
        · exact read_error hread.symm
        · cases he
          exact hf.determinate
      | ok o =>
        obtain hread | ⟨e, _, he⟩ := hanswer
        · obtain ⟨hbody, htoken⟩ := (World.read_page hne).1 hread.symm
          obtain ⟨body, token⟩ := o
          obtain rfl : token = 1 := htoken
          exact .got (hlater.rely.pages _ _ hbody) hreads
        · cases he
    · have hok : a.toOption ≠ none := by
        have := (Bool.or_eq_false_iff.1 (hlater.failed hf)).2
        simpa [failedRead, hne] using this
      cases a with
      | error e => exact absurd rfl hok
      | ok o =>
        obtain hread | ⟨e, _, he⟩ := hanswer
        · obtain ⟨hbody, htoken⟩ := (World.read_page hne).1 hread.symm
          obtain ⟨body, token⟩ := o
          obtain rfl : token = 1 := htoken
          have hserve : serve v'.world.pages (.get key) = .ok ⟨body, 1⟩ := by
            simp only [serve, hlater.rely.pages _ _ hbody]
          rw [hclean hf, Prog.run_op, hserve]
        · cases he

/-- A reader returns what it returns when every read is served, unless it fails. -/
theorem wpE_reader {x : M α} (hx : Reader config x) (v : View) : (env config author allow).wpE
      (fun a v' => Later config author.pid v v' ∧ eval v'.world.pages x = .ok a)
      (fun e v' => Later config author.pid v v' ∧ Determinate e ∧
        (v'.failed = false → eval v'.world.pages x = .error e)) x v := by
  refine Env.wp_mono ?_ (wp_reads hx.only v)
  rintro (e | a) v' ⟨hlater, hreads, hclean⟩
  · exact ⟨hlater, hx.errors _ e hreads, fun hf => (hclean hf).symm⟩
  · exact ⟨hlater, hx.sound _ a hreads⟩

end

end ObjLog.Catengine
