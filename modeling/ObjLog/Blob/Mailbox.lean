import ObjLog.Blob.Retention
import ObjLog.Catengine.Store
import ObjLog.Lib.Rely
/-!
# Any number of callers of `RequestRetention`

The mailbox of one partition is a register; `Box` keeps every body it ever
held, oldest first, with the caller that stored it. The token of the `n`th body
is `n` and the empty token is `0`. A compare-and-swap takes effect once or not
at all, and either way its answer may be lost.

A caller may swap only where it knows the last file and its request moves that
file on. So the files rise (`Rising`), and a caller that observes a file its
request moves on knows that its own has never been stored
(`Rising.unposted`).
-/

namespace ObjLog.Blob

open Lib Env Pmeta Blobstore
open Catengine (Foreign)

/-- One body the mailbox held. -/
structure Posting where
  caller : Nat
  body : Bytes
deriving DecidableEq

abbrev Box := List Posting

def Box.current (box : Box) : Option Object := box.getLast?.map fun p => ⟨p.body, box.length⟩

def Box.read (box : Box) : Except Err Object :=
  match box.current with
  | some object => .ok object
  | none => .error (.bare .objectNotFound)

/-- What one operation of a caller can do to the mailbox at `path`. -/
inductive Act (path : String) (caller : Nat) (box : Box) : (op : Op) → op.Answer → Box → Prop
  | live : Act path caller box .ctxErr none box
  | ended {e : Err} : Foreign e → Act path caller box .ctxErr (some e) box
  | waited : Act path caller box .wait none box
  | interrupted {e : Err} : Foreign e → Act path caller box .wait (some e) box
  | read : Act path caller box (.get path) box.read box
  | unread {e : Err} : Foreign e → Act path caller box (.get path) (.error e) box
  | swap {expected : Token} {body : Bytes} : expected = box.length →
      Act path caller box (.cas path expected body) (.ok (⟨body, box.length + 1⟩, true)) (box ++ [⟨caller, body⟩])
  | swapLost {expected : Token} {body : Bytes} {e : Err} : Foreign e → expected = box.length →
      Act path caller box (.cas path expected body) (.error e) (box ++ [⟨caller, body⟩])
  | mismatch {expected : Token} {body : Bytes} : expected ≠ box.length →
      Act path caller box (.cas path expected body) (.ok (box.current.getD ⟨[], 0⟩, false)) box
  | unswapped {expected : Token} {body : Bytes} {e : Err} : Foreign e →
      Act path caller box (.cas path expected body) (.error e) box

/-! ## Files that rise -/

section
variable [Json] {streamID : String} {partition : UInt32} {box box' : Box} {p : Posting} {f : RetentionFile} {i : Nat}
  {request : RetentionRequest}

/-- The file a body of the mailbox holds. -/
def Posting.Holds (streamID : String) (partition : UInt32) (p : Posting) (f : RetentionFile) : Prop :=
  decodeRetentionFile p.body streamID partition = .ok f

/-- The policy version grows, the cut does not go back. -/
def Rises (f g : RetentionFile) : Prop := f.policyVersion < g.policyVersion ∧ f.beforeLSN ≤ g.beforeLSN

/-- Every body holds a file, and each file rises over all before it. -/
structure Rising (streamID : String) (partition : UInt32) (box : Box) : Prop where
  holds : ∀ p ∈ box, ∃ f, p.Holds streamID partition f
  rises : box.Pairwise fun p q => ∀ f g, p.Holds streamID partition f → q.Holds streamID partition g → Rises f g

/-- The file the request writes over, if there is one, gives way to it. -/
def Yields (streamID : String) (partition : UInt32) (request : RetentionRequest) (box : Box) (token : Token) : Prop :=
  token = 0 ∨ ∃ (n : Nat) (p : Posting) (f : RetentionFile), token = n + 1 ∧ box[n]? = some p ∧
    p.Holds streamID partition f ∧ f.policyVersion < request.policyVersion ∧ f.beforeLSN ≤ request.beforeLSN

/-- A request with the same version and cut was stored. -/
def Stored (streamID : String) (partition : UInt32) (box : Box) (request : RetentionRequest) : Prop :=
  ∃ p ∈ box, ∃ f, p.Holds streamID partition f ∧ f.policyVersion = request.policyVersion ∧
    f.beforeLSN = request.beforeLSN

/-- The caller has stored nothing. -/
def Unposted (i : Nat) (box : Box) : Prop := ∀ p ∈ box, p.caller ≠ i

/-- What caller `i` stores is its request. -/
def Owns (streamID : String) (partition : UInt32) (i : Nat) (request : RetentionRequest) (box : Box) : Prop :=
  ∀ p ∈ box, p.caller = i → ∃ f, p.Holds streamID partition f ∧ f.policyVersion = request.policyVersion

theorem Posting.Holds.unique {g : RetentionFile} (hf : p.Holds streamID partition f) (hg : p.Holds streamID partition g) :
    f = g := by
  unfold Posting.Holds at hf hg
  rw [hf] at hg
  exact Except.ok.inj hg

omit [Json] in
theorem Box.exists_last (h : box ≠ []) :
    ∃ init p, box = init ++ [p] ∧ Box.current box = some ⟨p.body, init.length + 1⟩ := by
  refine ⟨box.dropLast, box.getLast h, (List.dropLast_append_getLast h).symm, ?_⟩
  obtain ⟨n, hn⟩ := Nat.exists_eq_succ_of_ne_zero (mt List.length_eq_zero_iff.1 h)
  simp [Box.current, List.getLast?_eq_some_getLast h, hn]

/-- A body of the last file or below holds a policy version of at most the last one. -/
theorem Rising.le_last {init : Box} {last : RetentionFile} (h : Rising streamID partition (init ++ [p]))
    (hlast : p.Holds streamID partition last) {q : Posting} (hq : q ∈ init ++ [p]) (hf : q.Holds streamID partition f) :
    f.policyVersion ≤ last.policyVersion ∧ f.beforeLSN ≤ last.beforeLSN := by
  rcases mem_concat.1 hq with hq | rfl
  · obtain ⟨hv, hb⟩ := (List.pairwise_append.1 h.rises).2.2 q hq p (List.mem_singleton.2 rfl) f last hf hlast
    exact ⟨UInt64.le_of_lt hv, hb⟩
  · obtain rfl := hf.unique hlast
    exact ⟨UInt64.le_refl _, UInt64.le_refl _⟩

/-- The last file gives way to the request, so the caller has not stored it. -/
theorem Rising.unposted {init : Box} {last : RetentionFile} (h : Rising streamID partition (init ++ [p]))
    (howns : Owns streamID partition i request (init ++ [p])) (hlast : p.Holds streamID partition last)
    (hv : last.policyVersion < request.policyVersion) : Unposted i (init ++ [p]) := by
  intro q hq hi
  obtain ⟨f, hf, heq⟩ := howns q hq hi
  have hle := (h.le_last hlast hq hf).1
  rw [heq] at hle
  exact absurd (UInt64.lt_of_lt_of_le hv hle) (UInt64.lt_irrefl _)

/-- A swap over a file that gives way keeps the files rising. -/
theorem Rising.post (h : Rising streamID partition box) (hf : p.Holds streamID partition f)
    (hv : f.policyVersion = request.policyVersion) (hb : f.beforeLSN = request.beforeLSN)
    (hy : Yields streamID partition request box box.length) : Rising streamID partition (box ++ [p]) := by
  refine ⟨fun q hq => ?_, List.pairwise_append.2 ⟨h.rises, List.pairwise_singleton _ _, fun q hq x hx g g' hg hg' => ?_⟩⟩
  · rcases List.mem_append.1 hq with hq | hq
    · exact h.holds q hq
    · exact ⟨f, List.mem_singleton.1 hq ▸ hf⟩
  obtain rfl := List.mem_singleton.1 hx
  obtain rfl := hg'.unique hf
  obtain ⟨init, last, rfl, -⟩ := Box.exists_last (List.ne_nil_of_mem hq)
  rcases hy with hzero | ⟨n, x, l, hn, hx', hl, hlv, hlb⟩
  · simp at hzero
  -- the file at the last token is the last one
  have hlen : n = init.length := by simpa using hn.symm
  rw [hlen, List.getElem?_append_right (Nat.le_refl _)] at hx'
  obtain rfl : last = x := by simpa using hx'
  obtain ⟨hqv, hqb⟩ := h.le_last hl hq hg
  exact ⟨hv ▸ UInt64.lt_of_le_of_lt hqv hlv, hb ▸ UInt64.le_trans hqb hlb⟩

end

/-! ## One caller among others -/

section
variable [Json] {streamID path : String} {partition : UInt32} {i : Nat} {box box' : Box} {request : RetentionRequest} {token : Token}

/-- What others do: they add files, which still rise. -/
structure Rely (streamID : String) (partition : UInt32) (i : Nat) (box box' : Box) : Prop where
  adds : ∃ more, box' = box ++ more ∧ Unposted i more
  rising : Rising streamID partition box → Rising streamID partition box'

/-- What caller `i` does: nothing, or it adds one file. -/
structure Moves (streamID : String) (partition : UInt32) (i : Nat) (box box' : Box) : Prop where
  adds : ∃ more, box' = box ++ more ∧ ∀ p ∈ more, p.caller = i
  rising : Rising streamID partition box → Rising streamID partition box'

theorem Moves.refl (box : Box) : Moves streamID partition i box box := ⟨⟨[], by simp, by simp⟩, id⟩

theorem Rely.refl (box : Box) : Rely streamID partition i box box := ⟨⟨[], by simp, fun p hp => by cases hp⟩, id⟩

theorem Rely.trans {box'' : Box} (h : Rely streamID partition i box box') (h' : Rely streamID partition i box' box'') :
    Rely streamID partition i box box'' := by
  obtain ⟨⟨more, rfl, hmore⟩, hr⟩ := h
  obtain ⟨⟨rest, rfl, hrest⟩, hr'⟩ := h'
  refine ⟨⟨more ++ rest, by simp, fun p hp => ?_⟩, fun hb => hr' (hr hb)⟩
  rcases List.mem_append.1 hp with hp | hp
  · exact hmore p hp
  · exact hrest p hp

theorem Moves.rely {j : Nat} (h : Moves streamID partition i box box') (hj : i ≠ j) : Rely streamID partition j box box' := by
  obtain ⟨⟨more, rfl, hmore⟩, hr⟩ := h
  exact ⟨⟨more, rfl, fun p hp => hmore p hp ▸ hj⟩, hr⟩

/-- The mailbox around caller `i`. -/
def mailbox (streamID path : String) (partition : UInt32) (i : Nat) : Env Box Op Op.Answer where
  rely := Rely streamID partition i
  act := fun box op a box' => Act path i box op a box'
  guar := Moves streamID partition i
  refl := Rely.refl
  trans := Rely.trans

/-- What caller `i` knows of the mailbox throughout its call. -/
structure Knows (streamID : String) (partition : UInt32) (i : Nat) (request : RetentionRequest) (box : Box) : Prop where
  rising : Rising streamID partition box
  owns : Owns streamID partition i request box

/-- What the answer of a call says. -/
def Answered (streamID : String) (partition : UInt32) (i : Nat) (request : RetentionRequest) (box : Box) :
    Except Err RetentionRequest → Prop
  | .ok r => r.policyVersion = request.policyVersion ∧ r.beforeLSN = request.beforeLSN ∧
      Stored streamID partition box request
  | .error e => e.is .retentionRegression = true ∨ e.is .commitIndeterminate = true ∨ Unposted i box

theorem Unposted.rely (h : Unposted i box) (hr : Rely streamID partition i box box') : Unposted i box' := by
  obtain ⟨more, rfl, hmore⟩ := hr.adds
  intro p hp
  rcases List.mem_append.1 hp with hp | hp
  · exact h p hp
  · exact hmore p hp

theorem Stored.rely (h : Stored streamID partition box request) (hr : Rely streamID partition i box box') :
    Stored streamID partition box' request := by
  obtain ⟨more, rfl, -⟩ := hr.adds
  obtain ⟨p, hp, hf⟩ := h
  exact ⟨p, List.mem_append_left _ hp, hf⟩

theorem Yields.rely (h : Yields streamID partition request box token)
    (hr : Rely streamID partition i box box') : Yields streamID partition request box' token := by
  obtain ⟨more, rfl, -⟩ := hr.adds
  rcases h with h | ⟨n, p, f, hn, hp, hf⟩
  · exact .inl h
  · exact .inr ⟨n, p, f, hn, by rw [List.getElem?_append_left (List.getElem?_eq_some_iff.1 hp).1]; exact hp, hf⟩

theorem Knows.rely (h : Knows streamID partition i request box) (hr : Rely streamID partition i box box') :
    Knows streamID partition i request box' := by
  refine ⟨hr.rising h.rising, ?_⟩
  obtain ⟨more, rfl, hmore⟩ := hr.adds
  intro p hp hi
  rcases List.mem_append.1 hp with hp | hp
  · exact h.owns p hp hi
  · exact absurd hi (hmore p hp)

theorem Unposted.owns (h : Unposted i box) : Owns streamID partition i request box := fun p hp hi => absurd hi (h p hp)

/-! ## The call, part by part -/

/-- What a file observed at some moment of the call tells: the last file then, or that there was none. -/
def Observed (streamID : String) (partition : UInt32) (i : Nat) (request : RetentionRequest) (box : Box) :
    Option (RetentionFile × Token) → Prop
  | none => Unposted i box
  | some (f, token) => ∃ (n : Nat) (p : Posting), token = n + 1 ∧ box[n]? = some p ∧ p.Holds streamID partition f ∧
      (f.policyVersion < request.policyVersion → Unposted i box)

theorem Observed.rely {o : Option (RetentionFile × Token)} (h : Observed streamID partition i request box o)
    (hr : Rely streamID partition i box box') : Observed streamID partition i request box' o := by
  cases o with
  | none => exact Unposted.rely h hr
  | some l =>
    obtain ⟨n, p, ht, hp, hf, hu⟩ := h
    refine ⟨n, p, ht, ?_, hf, fun hv => (hu hv).rely hr⟩
    obtain ⟨more, rfl, -⟩ := hr.adds
    rw [List.getElem?_append_left (List.getElem?_eq_some_iff.1 hp).1]
    exact hp

/-- The object of some moment decodes to a file, and says what a file observed then says. -/
theorem Knows.observed (h : Knows streamID partition i request box) (hne : box ≠ []) :
    ∃ object f, Box.current box = some object ∧ decodeRetentionFile object.body streamID partition = .ok f ∧
      Observed streamID partition i request box (some (f, object.token)) := by
  obtain ⟨init, p, rfl, hcur⟩ := Box.exists_last hne
  obtain ⟨f, hf⟩ := h.rising.holds p (by simp)
  exact ⟨_, f, hcur, hf, init.length, p, rfl, by simp, hf, fun hv => h.rising.unposted h.owns hf hv⟩

theorem Observed.yields {f : RetentionFile}
    (h : Observed streamID partition i request box (some (f, token))) (hv : f.policyVersion < request.policyVersion)
    (hb : f.beforeLSN ≤ request.beforeLSN) : Yields streamID partition request box token := by
  obtain ⟨n, p, ht, hp, hf, -⟩ := h
  exact .inr ⟨n, p, f, ht, hp, hf, hv, hb⟩

/-- An observed file answers the call, or the caller has stored nothing and the file gives way. -/
theorem wpE_answerFrom {o : Option (RetentionFile × Token)} {otherwise : M RetentionRequest}
    (ho : Observed streamID partition i request box o)
    (hnext : Unposted i box → Yields streamID partition request box ((o.map (·.2)).getD 0) →
      (mailbox streamID path partition i).wpE (fun r b => Answered streamID partition i request b (.ok r))
        (fun e b => Answered streamID partition i request b (.error e)) otherwise box) :
    (mailbox streamID path partition i).wpE (fun r b => Answered streamID partition i request b (.ok r))
      (fun e b => Answered streamID partition i request b (.error e)) (answerFrom (o.map (·.1)) request otherwise) box := by
  cases o with
  | none => exact hnext ho (.inl rfl)
  | some l =>
    obtain ⟨f, token⟩ := l
    simp only [Option.map_some, answerFrom]
    rcases compareRetentionRequest_cases f.request request with ⟨heq, hv, hb⟩ | ⟨e, heq, he⟩ | ⟨heq, hv, hb⟩
    · rw [heq]
      obtain ⟨n, p, -, hp, hf, -⟩ := ho
      have hstored : Stored streamID partition box request := ⟨p, List.mem_of_getElem? hp, f, hf, hv, hb⟩
      exact fun b hr => ⟨hv, hb, hstored.rely hr⟩
    · rw [heq]
      exact fun b _ => .inl he
    · rw [heq]
      obtain ⟨_, _, _, _, _, hu⟩ := id ho
      exact hnext (hu hv) (ho.yields hv hb)

theorem wpE_requestBackoff {lastCASErr : Option Err} {left : Nat} : (mailbox streamID path partition i).wpE
    (fun _ b => Rely streamID partition i box b) (fun e _ => e.is .commitIndeterminate = true)
    (requestBackoff partition lastCASErr left) box := by
  unfold requestBackoff
  split
  · exact fun v hv => hv
  · refine wpE_adapt ?_
    unfold waitBackoff
    rw [wpE_bind]
    refine wpE_liftProg (wp_perform fun u hu a u' ha => ?_)
    cases ha with
    | waited => exact ⟨Moves.refl _, fun v hv w hw => hu.trans (hv.trans hw)⟩
    | interrupted _ => exact ⟨Moves.refl _, fun v _ w _ => rfl⟩

/-- A swap of the request over a file that gives way is a step of the caller, and it keeps what it knows. -/
theorem Knows.post {body : Bytes} {f : RetentionFile} (hk : Knows streamID partition i request box)
    (hbody : decodeRetentionFile body streamID partition = .ok f) (hv : f.policyVersion = request.policyVersion)
    (hb : f.beforeLSN = request.beforeLSN) (hy : Yields streamID partition request box box.length) :
    Moves streamID partition i box (box ++ [⟨i, body⟩]) ∧ Knows streamID partition i request (box ++ [⟨i, body⟩]) ∧
      Stored streamID partition (box ++ [⟨i, body⟩]) request := by
  have hholds : Posting.Holds streamID partition ⟨i, body⟩ f := hbody
  have hrising := hk.rising.post hholds hv hb hy
  refine ⟨⟨⟨_, rfl, fun p hp => List.mem_singleton.1 hp ▸ rfl⟩, fun _ => hrising⟩, ⟨hrising, fun p hp hi => ?_⟩,
    ⟨⟨i, body⟩, by simp, f, hholds, hv, hb⟩⟩
  rcases List.mem_append.1 hp with hp | hp
  · exact hk.owns p hp hi
  · exact ⟨f, List.mem_singleton.1 hp ▸ hholds, hv⟩

variable [Hashes] {opts : Options}

variable (hpath : retentionRequestPath opts.catalogPrefix opts.streamID partition = path)
include hpath

theorem wpE_loadRetentionFile
    (hk : Knows opts.streamID partition i request box) : (mailbox opts.streamID path partition i).wpE
      (fun o b => Rely opts.streamID partition i box b ∧ Observed opts.streamID partition i request b o)
      (fun _ b => Rely opts.streamID partition i box b) (loadRetentionFile opts partition) box := by
  unfold loadRetentionFile
  rw [hpath, wpE_bind]
  refine wpE_liftProg (wp_perform fun u hu a u' ha => ?_)
  have hku := hk.rely hu
  cases ha with
  | unread hf =>
    refine ⟨Moves.refl _, fun v hv => ?_⟩
    dsimp only
    rw [hf.is_eq_false (s := .objectNotFound) (by decide) (by decide)]
    exact fun w hw => (hu.trans hv).trans hw
  | read =>
    refine ⟨Moves.refl _, fun v hv => ?_⟩
    by_cases hnil : u = []
    · subst hnil
      exact fun w hw => ⟨(hu.trans hv).trans hw, Unposted.rely (fun p hp => by cases hp) (hv.trans hw)⟩
    · obtain ⟨object, f, hcur, hdec, hobs⟩ := hku.observed hnil
      rw [Box.read, hcur]
      dsimp only
      rw [hdec]
      exact fun w hw => ⟨(hu.trans hv).trans hw, hobs.rely (hv.trans hw)⟩

theorem wpE_requestUnswapped (hk : Knows opts.streamID partition i request box) (lastCASErr : Option Err) :
    (mailbox opts.streamID path partition i).wpE (fun r b => Answered opts.streamID partition i request b (.ok r))
      (fun e b => Answered opts.streamID partition i request b (.error e))
      (requestUnswapped opts partition request lastCASErr) box := by
  unfold requestUnswapped
  rw [wpE_bind]
  refine wpE_adapt (wpE_mono ?_ ?_ (wpE_loadRetentionFile hpath hk))
  · rintro o b ⟨hr, ho⟩
    refine wpE_answerFrom ho fun hu _ => ?_
    cases lastCASErr with
    | some e => exact fun b' hr' => .inr (.inr (hu.rely hr'))
    | none => exact fun b' hr' => .inr (.inr (hu.rely hr'))
  · exact fun e b _ => .inr (.inl rfl)

theorem wpE_requestAttempts
    {body : Bytes} {f : RetentionFile} (hbody : decodeRetentionFile body opts.streamID partition = .ok f)
    (hfv : f.policyVersion = request.policyVersion) (hfb : f.beforeLSN = request.beforeLSN) (left : Nat)
    (lastCASErr : Option Err) (hk : Knows opts.streamID partition i request box)
    (hy : Yields opts.streamID partition request box token) :
    (mailbox opts.streamID path partition i).wpE (fun r b => Answered opts.streamID partition i request b (.ok r))
      (fun e b => Answered opts.streamID partition i request b (.error e))
      (requestAttempts opts partition request body left token lastCASErr) box := by
  induction left generalizing box token lastCASErr with
  | zero => exact wpE_requestUnswapped hpath hk lastCASErr
  | succ left ih =>
    -- the wait before the next attempt
    have hnext : ∀ {b : Box} {token : Token} (err : Option Err), Knows opts.streamID partition i request b →
        Yields opts.streamID partition request b token →
        (mailbox opts.streamID path partition i).wpE (fun r b => Answered opts.streamID partition i request b (.ok r))
          (fun e b => Answered opts.streamID partition i request b (.error e))
          (do
            requestBackoff partition err left
            requestAttempts opts partition request body left token err) b := by
      intro b token err hkb hyb
      rw [wpE_bind]
      refine wpE_mono ?_ ?_ wpE_requestBackoff
      · exact fun _ v hv => ih err (hkb.rely hv) (hyb.rely hv)
      · exact fun e v he => .inr (.inl he)
    unfold requestAttempts
    rw [hpath, wpE_bind]
    refine wpE_liftProg (wp_perform fun u hu a u' ha => ?_)
    have hku := hk.rely hu
    have hyu := hy.rely hu
    cases ha with
    | swap heq =>
      obtain ⟨hmoves, -, hstored⟩ := hku.post hbody hfv hfb (heq ▸ hyu)
      exact ⟨hmoves, fun v hv w hw => ⟨rfl, rfl, hstored.rely (hv.trans hw)⟩⟩
    | swapLost _ heq =>
      -- the answer is lost; the file the caller knows is still below its own
      obtain ⟨hmoves, hkp, -⟩ := hku.post hbody hfv hfb (heq ▸ hyu)
      refine ⟨hmoves, fun v hv => hnext _ (hkp.rely hv) (Yields.rely ?_ hv)⟩
      rcases hyu with h | ⟨n, p, g, hn, hp, hg⟩
      · exact .inl h
      · exact .inr ⟨n, p, g, hn, by rw [List.getElem?_append_left (List.getElem?_eq_some_iff.1 hp).1]; exact hp, hg⟩
    | unswapped _ => exact ⟨Moves.refl _, fun v hv => hnext _ (hku.rely hv) (hyu.rely hv)⟩
    | mismatch hne =>
      refine ⟨Moves.refl _, fun v hv => ?_⟩
      have hnil : u ≠ [] := by
        rintro rfl
        rcases hyu with h | ⟨n, p, _, _, hp, _⟩
        · exact hne h
        · cases hp
      obtain ⟨object, g, hcur, hdec, hobs⟩ := hku.observed hnil
      rw [hcur]
      dsimp only [Option.getD_some]
      rw [hdec, wpE_bind]
      refine fun w hw => wpE_answerFrom (hobs.rely (hv.trans hw)) fun _ hyw => ?_
      exact hnext _ (hku.rely (hv.trans hw)) hyw

/-- A call by a caller that has stored nothing yet. -/
theorem wpE_requestRetention (hrising : Rising opts.streamID partition box) (hu : Unposted i box) :
    (mailbox opts.streamID path partition i).wpE (fun r b => Answered opts.streamID partition i request b (.ok r))
      (fun e b => Answered opts.streamID partition i request b (.error e))
      (requestRetention opts partition request) box := by
  have hk : Knows opts.streamID partition i request box := ⟨hrising, hu.owns⟩
  unfold requestRetention checkCtx
  rw [wpE_bind, wpE_bind]
  refine wpE_liftProg (wp_perform fun u hu' a u' ha => ?_)
  cases ha with
  | ended _ => exact ⟨Moves.refl _, fun v hv w hw => .inr (.inr (hu.rely (hu'.trans (hv.trans hw))))⟩
  | live =>
    refine ⟨Moves.refl _, fun v hv w hw => ?_⟩
    have hrw := hu'.trans (hv.trans hw)
    dsimp only [Env.outcome]
    rw [wpE_bind]
    refine wpE_lift (fun _ hvalid x hx => ?_) (fun e _ x hx => .inr (.inr (hu.rely (hrw.trans hx))))
    rw [wpE_bind]
    refine wpE_mono ?_ ?_ (wpE_loadRetentionFile hpath (hk.rely (hrw.trans hx)))
    · rintro o y ⟨hy, ho⟩
      refine wpE_answerFrom ho fun _ hyields => ?_
      exact wpE_requestAttempts hpath (decodeRetentionFile_marshal hvalid) rfl rfl _ _
        (hk.rely ((hrw.trans hx).trans hy)) hyields
    · exact fun e y hy => .inr (.inr (hu.rely ((hrw.trans hx).trans hy)))

end

end ObjLog.Blob
