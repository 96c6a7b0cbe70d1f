import ObjLog.Sink.Gcs
/-!
# The compose tree keeps the content

Whatever the number of parts, composing them level by level ends with one object that
holds all of them in order. No request asks for nothing or for too much, and no two
requests for intermediate objects of one attempt have the same destination.
-/

namespace ObjLog.Gcs

open Lib Multipart

variable {level group : Nat} {s₀ s : Session} {bodies : List Bytes}

/-! ## Destinations -/

theorem plainName_padDec {text : String} (hslash : '/' ∉ text.toList) (hlong : 2 < text.toList.length) (w n : Nat) :
    PlainName (text ++ padDec w n) := by
  constructor
  · rw [String.toList_append, List.mem_append]
    rintro (h | h)
    · exact hslash h
    · exact absurd (isDigit_of_mem_padDec h) (by decide)
  · intro h
    have hlen : (text ++ padDec w n).toList.length ≤ 2 := by
      simp only [List.mem_cons, List.not_mem_nil, or_false] at h
      rcases h with h | h | h <;> simp [h]
    rw [String.toList_append, List.length_append] at hlen
    omega

theorem groupKey_inj {root : String} {level' group' : Nat}
    (h : groupKey root level group = groupKey root level' group') : level = level' ∧ group = group' := by
  obtain ⟨hlevel, hgroup⟩ := pathJoin_inj (plainName_padDec (by decide) (by decide) 2 level)
    (plainName_padDec (by decide) (by decide) 6 group) (plainName_padDec (by decide) (by decide) 2 level')
    (plainName_padDec (by decide) (by decide) 6 group') h
  exact ⟨padDec_inj.1 (String.append_right_inj _ |>.1 hlevel), padDec_inj.1 (String.append_right_inj _ |>.1 hgroup)⟩

/-! ## Contents -/

/-- What a generation of an object holds. A generation never changes. -/
abbrev Content := String → Int → Option Bytes

/-- Attempt ids are generated, and every compose request succeeds and yields the concatenation of its sources. -/
def Composes (content : Content) : (op : Op) → op.Answer → Prop
  | .newAttemptID, answer => ∃ id, answer = .ok id
  | .compose dst sources _ _, answer => ∃ attrs, answer = .ok attrs ∧ (attrs.name = "" ∨ attrs.name = dst) ∧
      ∀ bodies, List.Forall₂ (fun s b => content s.1 s.2 = some b) sources bodies →
        content dst attrs.generation = some bodies.flatten ∧ attrs.size = bodies.flatten.length
  | _, _ => True

variable {content : Content}

/-- The objects hold the bodies, one each. -/
def Holds (content : Content) : List Object → List Bytes → Prop :=
  List.Forall₂ fun o b => content o.key o.generation = some b ∧ o.size = UInt64.ofNat b.length

/-- One attempt has asked for the groups of the levels below `level` and the groups below `group` of `level`. -/
structure Asked (s₀ : Session) (root : String) (level group : Nat) (s : Session) : Prop where
  key : s.key = s₀.key
  opts : s.opts = s₀.opts
  log : ∃ (staged : List Request) (groups : List (Nat × Nat)), s.requests = s₀.requests ++ staged ∧
    staged.map Request.dst = groups.map (fun g => groupKey root g.1 g.2) ∧ groups.Nodup ∧
    (∀ g ∈ groups, g.1 < level ∨ g.1 = level ∧ g.2 < group) ∧
    ∀ r ∈ staged, 1 ≤ r.sources.length ∧ r.sources.length ≤ composeSourceLimit

/-- One request more, and the object it made. -/
structure Made (content : Content) (s₀ : Session) (dst : String) (sources : List Object) (bodies : List Bytes)
    (object : Object) (s : Session) : Prop where
  key : s.key = s₀.key
  opts : s.opts = s₀.opts
  requests : s.requests = s₀.requests ++ [⟨dst, sources.map fun o => (o.key, o.generation)⟩]
  dst : object.key = dst
  holds : Holds content [object] [bodies.flatten]

@[simp] theorem trackIntermediate_key (o : Object) (dst : String) (s : Session) : (trackIntermediate o dst s).key = s.key := by
  unfold trackIntermediate trackStaging; split <;> rfl

@[simp] theorem trackIntermediate_opts (o : Object) (dst : String) (s : Session) : (trackIntermediate o dst s).opts = s.opts := by
  unfold trackIntermediate trackStaging; split <;> rfl

@[simp] theorem trackIntermediate_requests (o : Object) (dst : String) (s : Session) :
    (trackIntermediate o dst s).requests = s.requests := by
  unfold trackIntermediate trackStaging; split <;> rfl

theorem composeTo_spec {sources : List Object} (h : Holds content sources bodies) (dst : String) (metadata : Metadata) :
    Triple (Composes content) (· = s₀) (Made content s₀ dst sources bodies) (fun _ => False)
      (composeTo dst sources metadata) := by
  unfold composeTo
  refine Triple.get fun s hs => ?_
  subst hs
  set asked : Session := { trackIntermediate ⟨dst, 0, _⟩ dst s with requests := s.requests ++ [⟨dst, _⟩] } with hasked
  refine Triple.bind (Triple.modify (Q := fun _ t => t = asked) fun _ ht => by rw [ht]) fun _ => ?_
  refine Triple.bind (Triple.perform (Q := fun a t => Composes content _ a ∧ t = asked) fun a ha t ht => ⟨ha, ht⟩) fun a => ?_
  cases a with
  | error e => exact Triple.throw fun t ⟨⟨_, h, _⟩, _⟩ => nomatch h
  | ok attrs =>
    refine Triple.bind (Triple.modify (Q := fun _ => Made content s dst sources bodies _) ?_) fun _ =>
      Triple.pure fun _ h => h
    rintro _ ⟨⟨_, hok, hname, hyields⟩, rfl⟩
    obtain rfl := Except.ok.inj hok
    have hkey : (if attrs.name = "" then dst else attrs.name) = dst := by
      rcases hname with h | h <;> simp [h]
    obtain ⟨hcontent, hsize⟩ := hyields bodies (List.forall₂_map_left_iff.2 (h.imp fun _ _ hb => hb.1))
    refine ⟨by simp [hasked], by simp [hasked], by simp [hasked], hkey, .cons ⟨?_, ?_⟩ .nil⟩
    · rw [hkey]
      exact hcontent
    · simp only [hsize, ge_iff_le, Int.natCast_nonneg, if_true, Int.toNat_natCast]

/-! ## Groups and levels -/

/-- A group that was not asked for yet is asked for. -/
theorem Asked.add {t : Session} {root : String} {sources : List Object}
    {object : Object} (h : Asked s₀ root level group s) (hm : Made content s (groupKey root level group) sources bodies object t)
    (hne : sources ≠ []) (hmax : sources.length ≤ composeSourceLimit) : Asked s₀ root level (group + 1) t := by
  obtain ⟨staged, groups, hreq, hdst, hnodup, hbelow, hsizes⟩ := h.log
  refine ⟨hm.key.trans h.key, hm.opts.trans h.opts, staged ++ [⟨groupKey root level group, sources.map fun o => (o.key, o.generation)⟩], groups ++ [(level, group)],
    ?_, by simp [hdst], ?_, ?_, ?_⟩
  · rw [hm.requests, hreq, List.append_assoc]
  · refine List.nodup_append.2 ⟨hnodup, List.pairwise_singleton _ _, fun g hg g' hg' heq => ?_⟩
    rw [heq, List.mem_singleton.1 hg'] at hg
    rcases hbelow _ hg with h | ⟨_, h⟩ <;> omega
  · intro g hg
    rcases mem_concat.1 hg with hg | rfl
    · rcases hbelow g hg with h | ⟨h, h'⟩
      · exact .inl h
      · exact .inr ⟨h, by omega⟩
    · exact .inr ⟨rfl, Nat.lt_succ_self _⟩
  · intro r hr
    rcases mem_concat.1 hr with hr | rfl
    · exact hsizes r hr
    · rw [List.length_map]
      exact ⟨List.length_pos_of_ne_nil hne, hmax⟩

theorem Asked.nextLevel {root : String} (h : Asked s₀ root level group s) : Asked s₀ root (level + 1) 0 s := by
  obtain ⟨staged, groups, hreq, hdst, hnodup, hbelow, hsizes⟩ := h.log
  refine ⟨h.key, h.opts, staged, groups, hreq, hdst, hnodup, fun g hg => .inl ?_, hsizes⟩
  rcases hbelow g hg with h | ⟨h, _⟩ <;> omega

/-- What one level leaves: fewer objects with the same content. -/
structure Leaves (content : Content) (s₀ : Session) (root : String) (level : Nat) (sources : List Object)
    (bodies : List Bytes) (next : List Object) (s : Session) : Prop where
  asked : ∃ group, Asked s₀ root level group s
  holds : ∃ grouped, Holds content next grouped ∧ grouped.flatten = bodies.flatten
  length : next.length = (sources.length + 31) / 32

theorem composeGroups_spec {root : String} (turns : Nat) {sources : List Object}
    (h : Holds content sources bodies) (hturns : sources.length ≤ turns) :
    Triple (Composes content) (Asked s₀ root level group) (Leaves content s₀ root level sources bodies) (fun _ => False)
      (composeGroups root level turns group sources) := by
  induction turns generalizing group sources bodies with
  | zero =>
    obtain rfl := List.eq_nil_of_length_eq_zero (Nat.le_zero.1 hturns)
    cases h
    exact Triple.pure fun s hs => ⟨⟨_, hs⟩, ⟨[], .nil, rfl⟩, rfl⟩
  | succ turns ih =>
    cases sources with
    | nil =>
      cases h
      exact Triple.pure fun s hs => ⟨⟨_, hs⟩, ⟨[], .nil, rfl⟩, rfl⟩
    | cons source rest =>
      set sources := source :: rest
      have hne : sources ≠ [] := List.cons_ne_nil _ _
      have hlen := List.length_pos_of_ne_nil hne
      have htake : Holds content (sources.take 32) (bodies.take 32) := List.forall₂_take 32 h
      have hdrop : Holds content (sources.drop 32) (bodies.drop 32) := List.forall₂_drop 32 h
      refine Triple.get fun s hs => ?_
      refine Triple.bind (composeTo_spec htake _ _) fun object => ?_
      refine Triple.each fun t ht => ?_
      refine Triple.bind ((@ih (group + 1) _ _ hdrop ?_).pre fun _ h => h ▸ hs.add ht ?_ ?_) fun next => Triple.pure ?_
      · rw [List.length_drop]
        omega
      · intro hnil
        simp [sources] at hnil
      · exact List.length_take_le _ _
      · intro u hl
        obtain ⟨grouped, hgrouped, hflat⟩ := hl.holds
        refine ⟨hl.asked, ⟨_ :: grouped, .cons (List.forall₂_cons.1 ht.holds).1 hgrouped, ?_⟩, ?_⟩
        · rw [List.flatten_cons, hflat, ← List.flatten_append, List.take_append_drop]
        · rw [List.length_cons, hl.length, List.length_drop]
          omega

theorem composeLevels_spec {s₀ : Session} {root : String} (turns : Nat) {level : Nat} {sources : List Object}
    {bodies : List Bytes} (h : Holds content sources bodies) (hne : sources ≠ []) (hturns : sources.length ≤ turns + 32) :
    Triple (Composes content) (Asked s₀ root level 0)
      (fun next s => (∃ level, Asked s₀ root level 0 s) ∧ next ≠ [] ∧ next.length ≤ composeSourceLimit ∧
        ∃ grouped, Holds content next grouped ∧ grouped.flatten = bodies.flatten)
      (fun _ => False) (composeLevels root turns level sources) := by
  induction turns generalizing level sources bodies with
  | zero =>
    have hle : sources.length ≤ composeSourceLimit := hturns.trans_eq (Nat.zero_add 32)
    unfold composeLevels
    rw [if_pos hle]
    exact Triple.pure fun s hs => ⟨⟨_, hs⟩, hne, hle, bodies, h, rfl⟩
  | succ turns ih =>
    unfold composeLevels
    refine Triple.ite (fun hle => Triple.pure fun s hs => ⟨⟨_, hs⟩, hne, hle, bodies, h, rfl⟩) fun hmore => ?_
    simp only [composeSourceLimit, Nat.not_le] at hmore
    refine Triple.bind (composeGroups_spec _ h (Nat.le_refl _)) fun next => Triple.each fun s hs => ?_
    obtain ⟨grouped, hgrouped, hflat⟩ := hs.holds
    obtain ⟨group, hasked⟩ := hs.asked
    have hlen := hs.length
    rw [← hflat]
    refine (ih hgrouped ?_ (by omega)).pre fun _ h => h ▸ hasked.nextLevel
    rintro rfl
    simp only [List.length_nil] at hlen
    omega

/-- What an attempt asks for: intermediate objects at distinct keys, then the final one. -/
def Asks (s₀ : Session) (requests : List Request) : Prop :=
  ∃ staged final, requests = s₀.requests ++ staged ++ [final] ∧ final.dst = s₀.key ∧ (staged.map Request.dst).Nodup ∧
    ∀ r ∈ staged ++ [final], 1 ≤ r.sources.length ∧ r.sources.length ≤ composeSourceLimit

/-- Whatever the number of sources, they end up in the final object. -/
theorem compose_spec {sources : List Object} (h : Holds content sources bodies)
    (hne : sources ≠ []) (attemptID : String) (request : CommitRequest) :
    Triple (Composes content) (· = s₀) (fun object s => s.key = s₀.key ∧ object.key = s₀.key ∧
      Holds content [object] [bodies.flatten] ∧ Asks s₀ s.requests) (fun _ => False) (compose sources attemptID request) := by
  unfold compose
  refine Triple.get fun s hs => ?_
  subst hs
  refine Triple.bind (Triple.pre (@composeLevels_spec content s _ sources.length 0 _ _ h hne (by omega)) ?_) fun next =>
    Triple.each fun t ⟨⟨level, hasked⟩, hnext, hmax, grouped, hgrouped, hflat⟩ => ?_
  · rintro _ rfl
    exact ⟨rfl, rfl, [], [], by simp⟩
  refine (composeTo_spec hgrouped _ _).mono (fun _ => id) (fun object u hm => ?_) fun _ => id
  obtain ⟨staged, groups, hreq, hdst, hnodup, _, hsizes⟩ := hasked.log
  refine ⟨hm.key.trans hasked.key, hm.dst, hflat ▸ hm.holds, staged, _, by rw [hm.requests, hreq], rfl, ?_, ?_⟩
  · rw [hdst]
    exact List.pairwise_map.2 (hnodup.imp fun hne heq => hne (Prod.ext_iff.2 (groupKey_inj heq)))
  · intro r hr
    rcases mem_concat.1 hr with hr | rfl
    · exact hsizes r hr
    · rw [List.length_map]
      exact ⟨List.length_pos_of_ne_nil hnext, hmax⟩

/-! ## Commit -/

/-- Each completed part is staged in an object that holds its bytes. -/
def Completed (content : Content) (bytes : Nat → Bytes) (s : Session) : Prop :=
  ∀ number part, s.parts.lookup number = some part → part.complete →
    content part.object.key part.object.generation = some (bytes number) ∧
    part.object.size = UInt64.ofNat (bytes number).length ∧ part.receipt.sizeBytes.toNat = (bytes number).length

theorem receiptSources_holds {bytes : Nat → Bytes} (hs : Completed content bytes s) {receipts : List Receipt}
    {sources : List Object} (h : receiptSources s.parts receipts = .ok sources) :
    Holds content sources (receipts.map fun r => bytes r.number) ∧
      (receipts.map fun r => r.sizeBytes.toNat) = receipts.map fun r => (bytes r.number).length := by
  induction receipts generalizing sources with
  | nil =>
    obtain rfl := Except.ok.inj h
    exact ⟨.nil, rfl⟩
  | cons receipt receipts ih =>
    unfold receiptSources at h
    split at h
    · rename_i part hpart
      simp only [checks_ok, not_or, not_not] at h
      obtain ⟨⟨hcomplete, rfl⟩, rest, hrest, rfl⟩ := h
      obtain ⟨hcontent, hsize, hlen⟩ := hs _ _ hpart hcomplete
      exact ⟨.cons ⟨hcontent, hsize⟩ (ih hrest).1, by simp [hlen, (ih hrest).2]⟩
    · cases h

theorem deleteObjects_spec {P : Session → Prop} (firstErr : Option Err) (objects : List Object) :
    Triple (Composes content) P (fun _ => P) (fun _ => False) (deleteObjects firstErr objects) := by
  induction objects generalizing firstErr with
  | nil => exact Triple.pure fun _ => id
  | cons object objects ih =>
    refine Triple.bind (Triple.perform (Q := fun _ => P) fun _ _ _ => id) fun err => ?_
    cases err with
    | some err => exact Triple.pure fun _ => id
    | none =>
      refine Triple.bind (Q := fun _ => P) (Triple.ite (fun _ => Triple.pure fun _ => id) fun _ => ?_) fun _ => ih _
      refine Triple.bind (Triple.perform (Q := fun _ => P) fun _ _ _ => id) fun out => ?_
      cases out with
      | ok _ | error _ => exact Triple.pure fun _ => id

/-- Deleting what was staged asks for no more compositions. -/
theorem cleanupStaging_spec {C : List Request → Prop} :
    Triple (Composes content) (fun s => C s.requests) (fun _ s => C s.requests) (fun _ => False) cleanupStaging := by
  refine Triple.get fun s hs => ?_
  refine Triple.bind (deleteObjects_spec none _) fun err => ?_
  cases err with
  | some err => exact Triple.pure fun _ h => h ▸ hs
  | none => exact Triple.bind (Triple.modify (Q := fun _ s => C s.requests) fun _ h => h ▸ hs) fun _ => Triple.pure fun _ => id

/-- What a commit of parts that hold `body` together returns. -/
structure Committed (content : Content) (s₀ : Session) (body : Bytes) (attrs : ObjectAttrs) (requests : List Request) : Prop where
  size : attrs.sizeBytes = UInt64.ofNat body.length
  key : attrs.key = s₀.key
  holds : ∃ generation : Int, attrs.token = toString generation ∧ content s₀.key generation = some body
  asked : Asks s₀ requests

theorem composeAttempt_spec {sources : List Object} {request : CommitRequest}
    (h : Holds content sources bodies) (hne : sources ≠ []) (hsize : request.sizeBytes = UInt64.ofNat bodies.flatten.length) :
    Triple (Composes content) (· = s₀) (fun attrs s => Committed content s₀ bodies.flatten attrs s.requests) (fun _ => False)
      (composeAttempt sources request) := by
  refine Triple.bind (Triple.perform (Q := fun a s => Composes content .newAttemptID a ∧ s = s₀) fun _ ha _ hs => ⟨ha, hs⟩)
    fun a => ?_
  cases a with
  | error e => exact Triple.each fun _ ⟨⟨_, h⟩, _⟩ => nomatch h
  | ok attemptID =>
    refine Triple.bind (Triple.attempt (Q := fun out s => ∃ object, out = .ok object ∧ s.key = s₀.key ∧ object.key = s₀.key ∧
        Holds content [object] [bodies.flatten] ∧ Asks s₀ s.requests)
      ((compose_spec h hne attemptID request).mono (fun _ hs => hs.2) (fun object _ ho => ⟨object, rfl, ho⟩) fun _ => False.elim))
      fun out => Triple.each fun t ⟨object, hout, hkey, hobject, hholds, hasks⟩ => ?_
    subst hout
    obtain ⟨hcontent, hlength⟩ := (List.forall₂_cons.1 hholds).1
    rw [hobject] at hcontent
    refine Triple.get fun u hu => ?_
    subst hu
    refine Triple.ite (fun hbad => absurd (hlength.trans hsize.symm) hbad) fun _ => ?_
    refine Triple.bind (Triple.modify (Q := fun _ s => Asks s₀ s.requests) fun _ hs => hs ▸ hasks) fun _ => ?_
    refine Triple.bind cleanupStaging_spec fun _ => Triple.pure fun v hv => ⟨hlength, ?_, ⟨_, rfl, hcontent⟩, hv⟩
    simp [hobject, hkey]

/-- A commit of `n` completed parts asks for compositions of 1 to 32 sources, with distinct destinations
before the final one, and returns a final object that holds the parts in the order of their numbers. -/
theorem commit_composes_parts {bytes : Nat → Bytes} {s t : Session} {request : CommitRequest} {sources : List Object}
    {out : Except Failure ObjectAttrs} (hparts : Completed content bytes s)
    (hvalid : validateCommitRequest request limits = .ok ()) (hbegin : beginCommit s request = .ok (.inl sources))
    (hrun : ((commit request).run.run s).ReturnsBy (Composes content) (out, t)) :
    ∃ attrs staged final generation, out = .ok attrs ∧ t.requests = s.requests ++ staged ++ [final] ∧
      (∀ r ∈ staged ++ [final], 1 ≤ r.sources.length ∧ r.sources.length ≤ 32) ∧ (staged.map Request.dst).Nodup ∧
      final.dst = s.key ∧ attrs.key = s.key ∧ attrs.token = toString generation ∧
      content s.key generation = some ((List.range' 1 s.parts.length).flatMap bytes) ∧
      attrs.sizeBytes.toNat = ((List.range' 1 s.parts.length).map fun number => (bytes number).length).sum := by
  obtain ⟨hne, hnumbers, htotal⟩ := validateCommitRequest_ok hvalid
  have hopen : s.parts.length = request.receipts.length ∧ receiptSources s.parts request.receipts = .ok sources := by
    have hb := hbegin
    unfold beginCommit at hb
    cases hc : s.committed with
    | some attrs => simp [hc] at hb
    | none =>
      simp only [hc, checks_ok, pure_ok, Sum.inl.injEq, not_not, ne_eq] at hb
      obtain ⟨_, _, hcount, _, hsources, rfl⟩ := hb
      exact ⟨hcount, hsources⟩
  obtain ⟨hcount, hsources⟩ := hopen
  obtain ⟨hholds, hlengths⟩ := receiptSources_holds hparts hsources
  have hbodies : (request.receipts.map fun r => bytes r.number) = (List.range' 1 s.parts.length).map bytes := by
    rw [hcount, ← hnumbers, List.map_map]
    rfl
  have hsum : request.sizeBytes.toNat = ((List.range' 1 s.parts.length).map fun number => (bytes number).length).sum := by
    rw [htotal, hlengths, hcount, ← hnumbers, List.map_map]
    rfl
  have hlength : ((List.range' 1 s.parts.length).map bytes).flatten.length = request.sizeBytes.toNat := by
    rw [hsum, List.length_flatten, List.map_map]
    rfl
  rw [hbodies] at hholds
  have hspec : Triple (Composes content) (· = s) (fun attrs t => Committed content s
      ((List.range' 1 s.parts.length).map bytes).flatten attrs t.requests) (fun _ => False) (commit request) := by
    refine Triple.get fun u hu => ?_
    subst hu
    have hbegun : (validateCommitRequest request limits >>= fun _ => beginCommit u request) = .ok (.inl sources) := by
      rw [hvalid]
      exact hbegin
    rw [hbegun]
    refine Triple.bind (Triple.modify (Q := fun _ t => t = { u with committing := true }) fun _ hs => hs ▸ rfl) fun _ => ?_
    refine (composeAttempt_spec hholds ?_ ?_).mono (fun _ => id) (fun _ _ hc => ⟨hc.size, hc.key, hc.holds, hc.asked⟩) fun _ => id
    · rintro rfl
      have hnone := hholds.length_eq
      rw [List.length_map, List.length_range', hcount] at hnone
      exact hne (List.eq_nil_of_length_eq_zero hnone.symm)
    · rw [hlength, UInt64.ofNat_toNat]
  obtain ⟨hok, hfail⟩ := hspec.returnsBy rfl hrun
  cases out with
  | error e => exact (hfail e rfl).elim
  | ok attrs =>
    obtain ⟨hsize, hkey, ⟨generation, htoken, hcontent⟩, staged, final, hreq, hdst, hnodup, hsizes⟩ := hok attrs rfl
    refine ⟨attrs, staged, final, generation, rfl, hreq, hsizes, hnodup, hdst, hkey, htoken, hcontent, ?_⟩
    rw [hsize, hlength, ← hsum, UInt64.ofNat_toNat]

namespace Sample

/-- Every object holds sevens, as many as its generation says. -/
def sevens : Content := fun _ generation => some (List.replicate generation.toNat 7)

/-- A store that composes such objects and deletes nothing. -/
def store : (op : Op) → op.Answer
  | .newAttemptID => .ok "a"
  | .compose dst sources _ _ =>
    let total : Nat := (sources.map fun s => s.2.toNat).sum
    .ok ⟨dst, total, total, []⟩
  | .attrs _ => .error ⟨.plain "", none, true⟩
  | .ctxErr => none
  | .delete _ _ => .error ⟨.plain "", none, true⟩

theorem store_composes (op : Op) : Composes sevens op (store op) := by
  cases op with
  | newAttemptID => exact ⟨_, rfl⟩
  | compose dst sources contentType metadata =>
    refine ⟨_, rfl, .inr rfl, fun bodies h => ?_⟩
    have hflat : bodies.flatten = List.replicate (sources.map fun s => s.2.toNat).sum 7 := by
      induction h with
      | nil => rfl
      | cons hb _ ih => rw [List.flatten_cons, ih, ← Option.some.inj hb, List.map_cons, List.sum_cons, List.replicate_add]
    rw [hflat, List.length_replicate]
    exact ⟨rfl, rfl⟩
  | attrs _ | ctxErr | delete _ _ => trivial

def receipt (number : Nat) : Receipt := ⟨number, "1", 1, .zero 32⟩
def request : CommitRequest := ⟨(List.range' 1 33).map receipt, 33, .zero 32⟩
def sources : List Object := List.replicate 33 ⟨"part", 1, 1⟩

/-- One part more than fit into one request. -/
def session : Session where
  key := "final"
  opts := ⟨"", "staging", "id", []⟩
  parts := (List.range' 1 33).map fun number => (number, ⟨⟨"part", 1, 1⟩, receipt number, true⟩)
  staging := []
  committing := false
  committed := none
  cleaning := false
  cleaned := false
  requests := []

theorem completed : Completed sevens (fun _ => [7]) session := by
  intro number part h _
  obtain ⟨before, rest, hparts, _⟩ := List.lookup_eq_some_iff.1 h
  have hmem : (number, part) ∈ session.parts := by simp [hparts]
  obtain ⟨_, _, heq⟩ := List.mem_map.1 hmem
  obtain ⟨-, rfl⟩ := Prod.mk.inj heq
  exact ⟨rfl, rfl, rfl⟩

def program : Prog Op Op.Answer (Except Failure ObjectAttrs × Session) := (commit request).run.run session
def outcome : Except Failure ObjectAttrs × Session := program.run store

theorem program_returns : program.ReturnsBy (Composes sevens) (outcome.1, outcome.2) := by
  rw [Prod.mk.eta]
  exact Prog.returnsBy_run store_composes program

end Sample

/-- Thirty-three parts of one byte are committed as thirty-three bytes. -/
theorem commit_composes_thirty_three : ∃ attrs, Sample.outcome.1 = .ok attrs ∧ attrs.sizeBytes.toNat = 33 := by
  have hvalid : validateCommitRequest Sample.request limits = .ok () := rfl
  have hbegin : beginCommit Sample.session Sample.request = .ok (.inl Sample.sources) := rfl
  obtain ⟨attrs, _, _, _, hout, _, _, _, _, _, _, _, hsize⟩ := commit_composes_parts Sample.completed hvalid hbegin
    Sample.program_returns
  exact ⟨attrs, hout, hsize⟩

end ObjLog.Gcs
